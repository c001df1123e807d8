/-
When the two figures for the memory in use agree.

One is taken from the size that was asked for and one from the size of the segment that is
held, so they agree when these are the same.  A new segment has the size that was asked for.
One that was there already is held by every client, and by a server in persistent mode that
goes on with the map in its file.
-/
import DistKV.MemoryStats
import DistKV.Proofs.Recovery
import Mathlib.Algebra.Group.Nat.Defs

namespace DistKV.KvStore

open Boost Hoare

variable {c : Site} {v : View} {size : Nat} {mode : StorageMode} {nodeTag : Bytes} {host : Host}
  {outcomes : List (Option Exn)} {s : Server}

/-! ### Clients -/

/-- A client that has found a map. -/
def Attached (c : Site) (v : View) (s : BoostState) : Prop :=
  (∃ seg, v.image = some (.segment seg)) ∧
    ∃ rest, At c { v with storage := true, mapPtr := true } rest s

theorem attach_spec (noMap : Exn) : Spec (At c v outcomes)
    (do openOnly c.mode
        modifyKv (·.setStorage c.mode true)
        if ← findMap c.mode then modifyKv (·.setMapPtr c.mode true) else throw noMap)
    (fun _ => Attached c v) fun _ _ => True := by
  refine Spec.bind _ (openOnly_spec.weaken_error fun _ _ _ => trivial) fun _ =>
    Spec.of_and fun hopens => ?_
  obtain ⟨-, seg, hseg⟩ := hopens
  refine Spec.bind (fun _ => At c { v with storage := true } outcomes.tail)
    (modifyKv_spec fun s hs => hs.setStorage true) fun _ => ?_
  refine Spec.bind _ ((findMap_spec (v := { v with storage := true }) hseg).weaken_error
    fun _ _ _ => trivial) fun found => ?_
  split
  · exact Spec.modify fun s hs => ⟨⟨seg, hseg⟩, _, hs.1.1.setMapPtr true⟩
  · exact Spec.throw fun _ _ => trivial

theorem connectToStorage_spec : Spec (At c v outcomes) (connectToStorage c.mode)
    (fun _ => Attached c v) fun _ _ => True := by
  obtain ⟨mode, name, mutexName, total⟩ := c
  cases mode with
  | memory => exact attach_spec _
  | persistent =>
      refine Spec.get_bind fun s₀ hs₀ => ?_
      split
      · exact Spec.throw fun _ _ => trivial
      · exact (attach_spec _).at hs₀

theorem connect_spec : Spec (At c v outcomes)
    (do connectToStorage c.mode
        openOrCreateMutex)
    (fun _ s => (∃ seg, v.image = some (.segment seg)) ∧
      ∃ rest, At c { v with mutex := true, storage := true, mapPtr := true } rest s)
    fun _ _ => True := by
  refine Spec.bind _ connectToStorage_spec fun _ => ?_
  intro s h
  obtain ⟨hseg, rest, hat⟩ := h
  exact openOrCreateMutex_spec.weaken (fun _ h => h) (fun _ s h => ⟨hseg, _, h.1⟩)
    (fun _ _ _ => trivial) s hat

theorem setUp_client_spec : Spec
    (fun s => s =
      { kv := { totalMemorySize := size, storageMode := mode, connMode := .client }
        host := host
        outcomes := outcomes })
    (setUp size mode .client nodeTag)
    (fun _ s => (∃ seg, host.image mode (segmentNameOf mode nodeTag) = some (.segment seg)) ∧
      ∃ rest, At (siteOf size mode nodeTag)
        { viewOf (siteOf size mode nodeTag) host with
          mutex := true, storage := true, mapPtr := true } rest s)
    fun _ _ => True := by
  refine setUp_of_provide ?_
  unfold provide
  simp only [reduceCtorEq, if_false]
  exact connect_spec (c := siteOf size mode nodeTag)

/-! ### The segment that a store holds -/

/-- A segment that was there already, and that the store goes on with. -/
def Holds (mode : StorageMode) (connMode : ConnectionMode) (image : Option Image)
    (outcomes : List (Option Exn)) (seg : Segment) : Prop :=
  image = some (.segment seg) ∧ (connMode = .server → StaysMapped mode image outcomes)

/-- What a store holds: a segment that was there, or one of the size that was asked for. -/
structure Holding (n : Nat) (old : Segment → Prop) (s : Server) : Prop where
  storage : s.kv.hasStorage s.kv.storageMode = true
  total : s.kv.totalMemorySize = n
  kept : ∀ seg, old seg → s.kv.segmentSize s.host = seg.size
  made : (∀ seg, ¬ old seg) → s.kv.segmentSize s.host = n

/-- The segment has the size that was asked for if an old one that is held has it. -/
theorem Holding.segmentSize_eq_iff {n : Nat} {old : Segment → Prop} (h : Holding n old s) :
    s.kv.segmentSize s.host = n ↔ ∀ seg, old seg → seg.size = n := by
  constructor
  · intro heq seg hold
    rw [← h.kept seg hold, heq]
  · intro hall
    by_cases hold : ∃ seg, old seg
    · obtain ⟨seg, hold⟩ := hold
      exact (h.kept seg hold).trans (hall seg hold)
    · exact h.made fun seg hseg => hold ⟨seg, hseg⟩

theorem segmentSize_of_image {seg : Segment}
    (h : s.host.image s.kv.storageMode (s.kv.segmentName s.kv.storageMode) = some (.segment seg)) :
    s.kv.segmentSize s.host = seg.size := by
  unfold segmentSize
  rw [h]

theorem getInstance_client
    (h : getInstance size mode .client nodeTag host outcomes = .ok s) :
    Holding (if 0 < size then size else defaultMemorySize)
      (Holds mode .client (host.image mode (segmentNameOf mode nodeTag)) outcomes) s := by
  obtain ⟨n, rest, hn, hrun⟩ := construct_of_getInstance h
  rw [← hn]
  obtain ⟨⟨seg, hseg⟩, rest', hat⟩ := Spec.of_ok (X := fun _ _ => True) (catchInterprocess_spec
    setUp_client_spec (fun _ _ _ => trivial) fun _ => Spec.throw fun _ _ => trivial) rfl hrun
  have hmode : s.kv.storageMode = mode := hat.mode
  have hname : s.kv.segmentName mode = segmentNameOf mode nodeTag := hat.name
  have himage : s.host.image s.kv.storageMode (s.kv.segmentName s.kv.storageMode) =
      host.image mode (segmentNameOf mode nodeTag) := by
    rw [hmode, hname]
    exact hat.image
  refine ⟨hmode ▸ hat.storage, hat.total, fun seg' hold => ?_, fun hnone => ?_⟩
  · exact segmentSize_of_image (himage.trans hold.1)
  · exact absurd ⟨hseg, fun hserver => by cases hserver⟩ (hnone seg)

theorem getInstance_server
    (h : getInstance size mode .server nodeTag host outcomes = .ok s) :
    Holding (if 0 < size then size else defaultMemorySize)
      (Holds mode .server (host.image mode (segmentNameOf mode nodeTag)) outcomes) s := by
  obtain ⟨n, rest, hn, hcame⟩ := getInstance_came h
  rw [← hn]
  have hmode : s.kv.storageMode = mode := hcame.mode
  have hname : s.kv.segmentName mode = segmentNameOf mode nodeTag := hcame.name
  refine ⟨hmode ▸ hcame.storage, hcame.total, fun seg hheld => ?_, fun hnone => ?_⟩
  · refine segmentSize_of_image ?_
    rw [hmode, hname]
    exact (hcame.stays (hheld.2 rfl)).trans hheld.1
  · have hnot : ¬ StaysMapped mode (host.image mode (segmentNameOf mode nodeTag)) outcomes := by
      intro hstays
      obtain ⟨seg, m, hseg, -⟩ := hstays.1.2.2.2
      exact hnone seg ⟨hseg, fun _ => hstays⟩
    obtain ⟨seg, hseg, hsize⟩ := hcame.new hnot
    rw [← hsize]
    refine segmentSize_of_image ?_
    rw [hmode, hname]
    exact hseg

theorem getInstance_holding {connMode : ConnectionMode}
    (h : getInstance size mode connMode nodeTag host outcomes = .ok s) :
    Holding (if 0 < size then size else defaultMemorySize)
      (Holds mode connMode (host.image mode (segmentNameOf mode nodeTag)) outcomes) s := by
  cases connMode with
  | server => exact getInstance_server h
  | client => exact getInstance_client h

/-! ### The two figures -/

/-- Two subtractions of what is free agree when they are from the same size. -/
theorem ofNat_sub_eq_iff {a b free : Nat} (ha : a < 2 ^ 64) (hb : b < 2 ^ 64) :
    UInt64.ofNat a - UInt64.ofNat free = UInt64.ofNat b - UInt64.ofNat free ↔ a = b := by
  constructor
  · intro h
    have hadd := congrArg (· + UInt64.ofNat free) h
    rw [UInt64.sub_add_cancel, UInt64.sub_add_cancel] at hadd
    have hnat := congrArg UInt64.toNat hadd
    rw [UInt64.toNat_ofNat', UInt64.toNat_ofNat', Nat.mod_eq_of_lt ha, Nat.mod_eq_of_lt hb] at hnat
    exact hnat
  · intro h
    rw [h]

/-- **When the figures for the memory in use agree.**  Whatever is free of the segment that a
store holds, `GetUsedMemory` says the same as `GetMemoryStats`, and neither subtraction wraps,
exactly if the store has made its segment or the one that was there has the size that was
asked for. -/
theorem accounting_agrees_iff (size : Nat) (mode : StorageMode) (connMode : ConnectionMode)
    (nodeTag : Bytes) (host : Host) (outcomes : List (Option Exn)) (s : Server)
    (h : getInstance size mode connMode nodeTag host outcomes = .ok s) (hsize : size < 2 ^ 64)
    (hactual : s.kv.segmentSize s.host < 2 ^ 64) (env : MemEnv)
    (hfree : env.freeMemory ≤ s.kv.segmentSize s.host) :
    (s.kv.getUsedMemory env = (s.kv.getMemoryStats env s.host).usedMemory ∧
      s.kv.getFreeMemory env ≤ s.kv.totalMemorySize ∧
      s.kv.getFreeMemory env ≤ s.kv.segmentSize s.host) ↔
    ∀ seg, Holds mode connMode (host.image mode (segmentNameOf mode nodeTag)) outcomes seg →
      seg.size = if 0 < size then size else defaultMemorySize := by
  have hholding := getInstance_holding h
  have htotal : (if 0 < size then size else defaultMemorySize) < 2 ^ 64 := by
    split
    · exact hsize
    · decide
  generalize (if 0 < size then size else defaultMemorySize) = n at hholding htotal ⊢
  have hfreeMemory : s.kv.getFreeMemory env = env.freeMemory := if_pos hholding.storage
  have hused : (s.kv.getMemoryStats env s.host).usedMemory =
      UInt64.ofNat (s.kv.segmentSize s.host) - UInt64.ofNat env.freeMemory := by
    unfold getMemoryStats
    rw [if_pos hholding.storage]
  rw [← hholding.segmentSize_eq_iff, hused]
  unfold getUsedMemory
  rw [hfreeMemory, hholding.total, ofNat_sub_eq_iff htotal hactual]
  constructor
  · intro hboth
    exact hboth.1.symm
  · intro heq
    exact ⟨heq.symm, heq ▸ hfree, hfree⟩

/-- A host with a segment of two megabytes. -/
def twoMegabytes : Host where
  shm := fun name =>
    if name = str "Project" then some (.segment { size := 2 * MB, sharedMap := some ∅ }) else none

/-- A client that asks for two megabytes and finds them there, with a thousand bytes free. -/
theorem accounting_agrees_iff_found :
    ∃ s, getInstance (2 * MB) .memory .client [] twoMegabytes [] = .ok s ∧
      s.kv.getUsedMemory ⟨1000, none⟩ = (s.kv.getMemoryStats ⟨1000, none⟩ s.host).usedMemory ∧
        s.kv.getFreeMemory ⟨1000, none⟩ ≤ s.kv.totalMemorySize ∧
        s.kv.getFreeMemory ⟨1000, none⟩ ≤ s.kv.segmentSize s.host := by
  refine ⟨_, rfl, (accounting_agrees_iff (2 * MB) .memory .client [] twoMegabytes [] _ rfl
    (by decide) (by decide) ⟨1000, none⟩ (by decide)).mpr ?_⟩
  rintro seg ⟨hseg, -⟩
  cases hseg
  decide

/-- A client that has asked for one takes what is free from that. -/
theorem client_figures_differ : ¬ ∀ (size : Nat) (mode : StorageMode) (connMode : ConnectionMode)
    (nodeTag : Bytes) (host : Host) (outcomes : List (Option Exn)) (s : Server) (env : MemEnv),
    getInstance size mode connMode nodeTag host outcomes = .ok s →
      env.freeMemory ≤ s.kv.segmentSize s.host →
      s.kv.getUsedMemory env = (s.kv.getMemoryStats env s.host).usedMemory := by
  intro hall
  have hsame := hall MB .memory .client [] twoMegabytes [] _ ⟨MB, none⟩ rfl (by decide)
  revert hsame
  decide

end DistKV.KvStore

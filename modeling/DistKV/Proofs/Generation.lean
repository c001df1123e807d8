/-
When every incarnation has a fresh generation.

What is written to a generation file is read back.  So the generations of a node rise as
long as each start finds in the file what the last incarnation has written: the file has not
been removed by the cleanup of the launcher, no start has died with the file open, and the
last generation is not the greatest that there is.  A start that finds anything else begins
at 1 again, or at 0.
-/
import DistKV.Proofs.Decimal
import DistKV.Lib.Run

namespace DistKV

open Machine

/-! ### What is written is read back -/

theorem readUInt32_writeUInt32 (g : UInt32) : readUInt32 (writeUInt32 g) = g := by
  have hhead : ∀ b ∈ (digits g.toNat).head?, isDigit b = true := fun b hb =>
    isDigit_of_mem_digits (List.mem_of_mem_head? hb)
  have hblank : (digits g.toNat).dropWhile isSpace = digits g.toNat := by
    obtain ⟨c, rest, hcons⟩ := List.exists_cons_of_ne_nil (digits_ne_nil g.toNat)
    rw [hcons]
    refine List.dropWhile_cons_of_neg ?_
    rw [isSpace_of_isDigit (hhead c (by rw [hcons]; rfl))]
    exact Bool.false_ne_true
  unfold readUInt32 writeUInt32
  rw [toStdString_natCast, hblank, ← List.nil_append (digits g.toNat),
    takeSign_append (Or.inl rfl) hhead]
  dsimp only
  rw [takeWhile_digits, foldl_digits, if_neg (not_le_of_gt g.toNat_lt)]
  exact UInt32.ofNat_toNat

/-! ### One file for each node -/

theorem generationFilePath_injective {i j : NodeId}
    (h : generationFilePath i = generationFilePath j) : i = j := by
  unfold generationFilePath at h
  rw [List.append_assoc, List.append_assoc] at h
  exact toStdString_injective (List.append_cancel_right (List.append_cancel_left h))

/-! ### One step of one node -/

namespace WorkDir

open LaunchEvent

variable {d : WorkDir} {i : NodeId} {e : LaunchEvent}

/-- What there is of a node: its file, its process, and its generations so far. -/
def node (d : WorkDir) (i : NodeId) : Option Bytes × Process × List UInt32 :=
  (d.files (generationFilePath i), d.process i, d.incarnations i)

/-- What a file says. -/
def generationIn (file : Option Bytes) : UInt32 := file.elim 0 readUInt32

theorem loadGeneration_eq (files : Files) (i : NodeId) :
    loadGeneration files i = generationIn (files (generationFilePath i)) := by
  unfold loadGeneration
  rcases files (generationFilePath i) with _ | text
  · rfl
  · rfl

/-- What an event can make of a node. -/
inductive Change (i : NodeId) :
    LaunchEvent → Option Bytes × Process × List UInt32 →
      Option Bytes × Process × List UInt32 → Prop where
  | keep (e n) : Change i e n n
  | load (file gs) :
      Change i (.load i) (file, .down, gs) (file, .loaded (generationIn file + 1), gs)
  | openFile (file g gs) :
      Change i (.openFile i) (file, .loaded g, gs) (some [], .opened g, gs)
  | write (file g gs) : Change i (.write i) (file, .opened g, gs)
      (file.map fun _ => writeUInt32 g, .running g, g :: gs)
  | stop (file g gs) : Change i (.stop i) (file, .running g, gs) (file, .down, gs)
  | crash (file p gs) : Change i (.crash i) (file, p, gs) (file, .down, gs)
  | cleanUp (file p gs) : Change i .cleanUp (file, p, gs) (none, p, gs)

theorem node_setFile_of_ne {j : NodeId} (hij : i ≠ j) (text : Option Bytes) (d : WorkDir) :
    (d.setFile (generationFilePath j) text).node i = d.node i := by
  unfold node setFile
  dsimp only
  rw [if_neg fun h => hij (generationFilePath_injective h)]

theorem node_setProcess_of_ne {j : NodeId} (hij : i ≠ j) (p : Process) (d : WorkDir) :
    (d.setProcess j p).node i = d.node i := by
  unfold node setProcess
  dsimp only
  rw [if_neg hij]

theorem node_record_of_ne {j : NodeId} (hij : i ≠ j) (g : UInt32) (d : WorkDir) :
    (d.record j g).node i = d.node i := by
  unfold node record
  dsimp only
  rw [if_neg hij]

theorem node_setFile (text : Option Bytes) (d : WorkDir) :
    (d.setFile (generationFilePath i) text).node i = (text, (d.node i).2) := by
  unfold node setFile
  dsimp only
  rw [if_pos rfl]

theorem node_setProcess (p : Process) (d : WorkDir) :
    (d.setProcess i p).node i = ((d.node i).1, p, (d.node i).2.2) := by
  unfold node setProcess
  dsimp only
  rw [if_pos rfl]

theorem node_record (g : UInt32) (d : WorkDir) :
    (d.record i g).node i = ((d.node i).1, (d.node i).2.1, g :: (d.node i).2.2) := by
  unfold node record
  dsimp only
  rw [if_pos rfl]

theorem isTemporary_generationFilePath (i : NodeId) :
    isTemporary (generationFilePath i) = true := by
  unfold isTemporary generationFilePath
  rw [Bool.or_eq_true, List.isSuffixOf_iff_suffix]
  exact Or.inl (List.suffix_append _ _)

theorem node_of_process {p : Process} (h : d.process i = p) :
    d.node i = (d.files (generationFilePath i), p, d.incarnations i) := by
  unfold node
  rw [h]

/-- An event of a node is no event of another one, but for the cleanup. -/
theorem step_change (d : WorkDir) (e : LaunchEvent) (i : NodeId) :
    Change i e (d.node i) ((d.step e).node i) := by
  rcases e with j | j | j | j | j | _
  · dsimp only [step]
    rcases hp : d.process j with _ | g | g | g
    · by_cases hij : i = j
      · rw [← hij] at hp ⊢
        rw [node_setProcess, node_of_process hp, loadGeneration_eq]
        exact .load _ _
      · rw [node_setProcess_of_ne hij]
        exact .keep _ _
    · exact .keep _ _
    · exact .keep _ _
    · exact .keep _ _
  · dsimp only [step]
    rcases hp : d.process j with _ | g | g | g
    · exact .keep _ _
    · by_cases hij : i = j
      · rw [← hij] at hp ⊢
        rw [node_setProcess, node_setFile, node_of_process hp]
        exact .openFile _ _ _
      · rw [node_setProcess_of_ne hij, node_setFile_of_ne hij]
        exact .keep _ _
    · exact .keep _ _
    · exact .keep _ _
  · dsimp only [step]
    rcases hp : d.process j with _ | g | g | g
    · exact .keep _ _
    · exact .keep _ _
    · by_cases hij : i = j
      · rw [← hij] at hp ⊢
        rw [node_record, node_setProcess, node_setFile, node_of_process hp]
        exact .write _ _ _
      · rw [node_record_of_ne hij, node_setProcess_of_ne hij, node_setFile_of_ne hij]
        exact .keep _ _
    · exact .keep _ _
  · dsimp only [step]
    rcases hp : d.process j with _ | g | g | g
    · exact .keep _ _
    · exact .keep _ _
    · exact .keep _ _
    · by_cases hij : i = j
      · rw [← hij] at hp ⊢
        rw [node_setProcess, node_of_process hp]
        exact .stop _ _ _
      · rw [node_setProcess_of_ne hij]
        exact .keep _ _
  · dsimp only [step]
    by_cases hij : i = j
    · rw [← hij, node_setProcess]
      exact .crash _ _ _
    · rw [node_setProcess_of_ne hij]
      exact .keep _ _
  · have hnode : (d.step .cleanUp).node i = (none, (d.node i).2) := by
      unfold node step
      dsimp only
      rw [if_pos (isTemporary_generationFilePath i)]
    rw [hnode]
    exact .cleanUp _ _ _

/-! ### The generations of a node -/

/-- What holds of a node whatever happens to its file, as long as every start is fresh. -/
structure Ordered (n : Option Bytes × Process × List UInt32) : Prop where
  filed : ∀ text, n.1 = some text → text = [] ∨ ∃ g gs, n.2.2 = g :: gs ∧ text = writeUInt32 g
  positive : ∀ g ∈ n.2.2, 0 < g
  pending : ∀ g, n.2.1 = .loaded g ∨ n.2.1 = .opened g → 0 < g ∧ ∀ g' ∈ n.2.2, g' < g
  sorted : n.2.2.Pairwise fun later earlier => earlier < later

/-- A generation above all that there were. -/
def Above (n : Option Bytes × Process × List UInt32) : Prop :=
  ∀ g ∈ n.2.2, g < generationIn n.1 + 1

/-- The file says what the last incarnation has written, and there is a next number. -/
def Kept (n : Option Bytes × Process × List UInt32) : Prop :=
  ∀ g gs, n.2.2 = g :: gs → n.1 = some (writeUInt32 g) ∧ g.toNat + 1 < 2 ^ 32

theorem toNat_succ {g : UInt32} (hg : g.toNat + 1 < 2 ^ 32) : (g + 1).toNat = g.toNat + 1 := by
  rw [UInt32.toNat_add]
  exact Nat.mod_eq_of_lt hg

theorem generationIn_of_ordered {n : Option Bytes × Process × List UInt32} (h : Ordered n) :
    generationIn n.1 = 0 ∨ ∃ g gs, n.2.2 = g :: gs ∧ n.1 = some (writeUInt32 g) := by
  rcases hfile : n.1 with _ | text
  · exact Or.inl rfl
  · rcases h.filed text hfile with hempty | ⟨g, gs, hgs, htext⟩
    · rw [hempty]
      exact Or.inl rfl
    · exact Or.inr ⟨g, gs, hgs, by rw [htext]⟩

/-- A start is fresh exactly if the file has been kept. -/
theorem above_iff_kept {n : Option Bytes × Process × List UInt32} (h : Ordered n) :
    Above n ↔ Kept n := by
  constructor
  · intro habove g gs hgs
    have hg : g ∈ n.2.2 := by
      rw [hgs]
      exact List.mem_cons_self
    have hpositive := UInt32.lt_iff_toNat_lt.mp (h.positive g hg)
    have hlt := UInt32.lt_iff_toNat_lt.mp (habove g hg)
    rcases generationIn_of_ordered h with hzero | ⟨g', gs', hgs', hfile⟩
    · rw [hzero] at hlt
      change 0 < g.toNat at hpositive
      change g.toNat < 1 at hlt
      omega
    · rw [hgs] at hgs'
      cases hgs'
      refine ⟨hfile, ?_⟩
      rw [hfile] at hlt
      change g.toNat < (readUInt32 (writeUInt32 g) + 1).toNat at hlt
      rw [readUInt32_writeUInt32] at hlt
      by_contra hlast
      have hmax : g.toNat + 1 = 2 ^ 32 := by
        have := g.toNat_lt
        omega
      rw [UInt32.toNat_add] at hlt
      change g.toNat < (g.toNat + 1) % 2 ^ 32 at hlt
      rw [hmax, Nat.mod_self] at hlt
      omega
  · intro hkept g hg
    rcases hgs : n.2.2 with _ | ⟨last, gs⟩
    · rw [hgs] at hg
      cases hg
    · obtain ⟨hfile, hnext⟩ := hkept last gs hgs
      rw [hfile, UInt32.lt_iff_toNat_lt]
      change g.toNat < (readUInt32 (writeUInt32 last) + 1).toNat
      rw [readUInt32_writeUInt32, toNat_succ hnext]
      have hsorted := h.sorted
      rw [hgs] at hg hsorted
      rcases List.mem_cons.mp hg with heq | hmem
      · rw [heq]
        omega
      · have hlt := UInt32.lt_iff_toNat_lt.mp ((List.pairwise_cons.mp hsorted).1 g hmem)
        omega

/-- A process that ends has nothing pending. -/
theorem Ordered.down {file : Option Bytes} {p : Process} {gs : List UInt32}
    (h : Ordered (file, p, gs)) : Ordered (file, .down, gs) := by
  refine ⟨h.filed, h.positive, fun g hg => ?_, h.sorted⟩
  rcases hg with heq | heq
  · cases heq
  · cases heq

/-- Every event keeps the generations in order, if a start is fresh. -/
theorem Ordered.change {n n' : Option Bytes × Process × List UInt32} (h : Ordered n)
    (hchange : Change i e n n') (hfresh : e = .load i → n.2.1 = .down → Above n) :
    Ordered n' := by
  cases hchange with
  | keep => exact h
  | load file gs =>
      have habove := hfresh rfl rfl
      refine ⟨h.filed, h.positive, fun g hg => ?_, h.sorted⟩
      rcases hg with heq | heq
      · cases heq
        refine ⟨?_, habove⟩
        rcases hgs : gs with _ | ⟨last, rest⟩
        · rcases generationIn_of_ordered h with hzero | ⟨g, gs', hgs', -⟩
          · rw [show generationIn file = 0 from hzero]
            decide
          · rw [show gs = g :: gs' from hgs'] at hgs
            cases hgs
        · have hlast := habove last (by rw [show gs = _ from hgs]; exact List.mem_cons_self)
          exact UInt32.lt_of_le_of_lt (UInt32.zero_le) hlast
      · cases heq
  | openFile file g gs =>
      refine ⟨fun text htext => ?_, h.positive, fun g' hg' => ?_, h.sorted⟩
      · cases htext
        exact Or.inl rfl
      · rcases hg' with heq | heq
        · cases heq
        · cases heq
          exact h.pending g (Or.inl rfl)
  | write file g gs =>
      obtain ⟨hpositive, habove⟩ := h.pending g (Or.inr rfl)
      refine ⟨fun text htext => ?_, fun g' hg' => ?_, fun g' hg' => ?_, ?_⟩
      · rcases Option.map_eq_some_iff.mp htext with ⟨_, -, rfl⟩
        exact Or.inr ⟨g, gs, rfl, rfl⟩
      · rcases List.mem_cons.mp hg' with heq | hmem
        · rw [heq]
          exact hpositive
        · exact h.positive g' hmem
      · rcases hg' with heq | heq
        · cases heq
        · cases heq
      · exact List.pairwise_cons.mpr ⟨habove, h.sorted⟩
  | stop file g gs => exact h.down
  | crash file p gs => exact h.down
  | cleanUp file p gs =>
      refine ⟨fun text htext => ?_, h.positive, h.pending, h.sorted⟩
      cases htext

/-! ### A history -/

/-- A constructor that begins here takes a generation above those of all incarnations of its
node. -/
def StartsAbove (d : WorkDir) (e : LaunchEvent) : Prop :=
  ∀ i, e = .load i → d.process i = .down → Above (d.node i)

/-- A constructor that begins here finds its file as the last incarnation has left it. -/
def FindsKept (d : WorkDir) (e : LaunchEvent) : Prop :=
  ∀ i, e = .load i → d.process i = .down → ∀ g gs, d.incarnations i = g :: gs →
    d.files (generationFilePath i) = some (writeUInt32 g) ∧ g.toNat + 1 < 2 ^ 32

theorem ordered_empty (i : NodeId) : Ordered (empty.node i) where
  filed := fun _ h => by cases h
  positive := fun _ h => by cases h
  pending := fun g h => by
    rcases h with heq | heq
    · cases heq
    · cases heq
  sorted := List.Pairwise.nil

theorem ordered_step (h : ∀ i, Ordered (d.node i)) (habove : d.StartsAbove e) :
    ∀ i, Ordered ((d.step e).node i) :=
  fun i => (h i).change (step_change d e i) fun he hdown => habove i he hdown

theorem startsAbove_iff (h : ∀ i, Ordered (d.node i)) : d.StartsAbove e ↔ d.FindsKept e :=
  forall_congr' fun i => forall_congr' fun _ => forall_congr' fun _ => above_iff_kept (h i)

theorem along_startsAbove_iff {es : List LaunchEvent} (h : ∀ i, Ordered (d.node i)) :
    Along step StartsAbove d es ↔ Along step FindsKept d es := by
  induction es generalizing d with
  | nil => exact Iff.rfl
  | cons e es ih =>
      show d.StartsAbove e ∧ Along step StartsAbove (d.step e) es ↔
        d.FindsKept e ∧ Along step FindsKept (d.step e) es
      rw [← startsAbove_iff h]
      exact and_congr_right fun habove => ih (ordered_step h habove)

/-- **When every incarnation has a fresh generation.**  Whatever is started, stopped and
killed in a directory, and whenever it is cleaned up: every constructor takes a generation
above those of all earlier incarnations of its node if and only if every constructor finds
its file as the last incarnation has left it, with a number in it that has a successor. -/
theorem generation_fresh_iff (config : NodeId → GossipConfig) (now : UInt64)
    (es : List LaunchEvent) :
    (∀ pre i, pre ++ [.load i] <+: es → (run step empty pre).process i = .down →
      ∀ g ∈ (run step empty pre).incarnations i,
        g < (GossipMembership.construct i (config i)
          (loadGeneration (run step empty pre).files i) now).generation) ↔
    Along step FindsKept empty es := by
  have hgeneration : ∀ (d : WorkDir) (i : NodeId),
      (GossipMembership.construct i (config i) (loadGeneration d.files i) now).generation =
        generationIn (d.node i).1 + 1 :=
    fun d i => congrArg (· + 1) (loadGeneration_eq d.files i)
  rw [← along_startsAbove_iff ordered_empty, along_iff]
  constructor
  · intro h pre e hpre i he hdown g hg
    rw [he] at hpre
    rw [← hgeneration]
    exact h pre i hpre hdown g hg
  · intro h pre i hpre hdown g hg
    rw [hgeneration]
    exact h pre (.load i) hpre i rfl hdown g hg

/-- The second start of server 0 dies with its file open. -/
def killedWhileSaving : List LaunchEvent :=
  [.load 0, .openFile 0, .write 0, .crash 0, .load 0, .openFile 0, .crash 0]

/-- The third start of a server begins at generation 1 again. -/
theorem generation_repeats : ¬ ∀ (config : NodeId → GossipConfig) (now : UInt64)
    (es : List LaunchEvent) (i : NodeId), (run step empty es).process i = .down →
    ∀ g ∈ (run step empty es).incarnations i,
      g < (GossipMembership.construct i (config i)
        (loadGeneration (run step empty es).files i) now).generation := by
  intro h
  have hlt := h
    (fun _ => { endpoint := str "a:1", seedNodes := [], suspectThresholdMs := 3000
                deadThresholdMs := 10000 }) 0 killedWhileSaving 0 rfl 1 (by decide)
  exact UInt32.lt_irrefl 1 hlt

/-! ### Histories in which nothing happens to a file -/

/-- Nobody cleans up, nobody dies with a file open, and no node gets to the last number. -/
def Careful (d : WorkDir) : LaunchEvent → Prop
  | .cleanUp => False
  | .crash i => ∀ g, d.process i ≠ .opened g
  | .load i => ∀ g ∈ d.incarnations i, g.toNat + 1 < 2 ^ 32
  | _ => True

/-- The file of a node says its last generation, but while it is being written. -/
structure UpToDate (n : Option Bytes × Process × List UInt32) : Prop where
  closed : (∀ g, n.2.1 ≠ .opened g) → ∀ g gs, n.2.2 = g :: gs → n.1 = some (writeUInt32 g)
  opened : ∀ g, n.2.1 = .opened g → n.1 ≠ none

theorem UpToDate.change {n n' : Option Bytes × Process × List UInt32} (h : UpToDate n)
    (hchange : Change i e n n') (hclean : e ≠ .cleanUp)
    (hcrash : e = .crash i → ∀ g, n.2.1 ≠ .opened g) : UpToDate n' := by
  cases hchange with
  | keep => exact h
  | load file gs =>
      refine ⟨fun _ => h.closed fun g hg => ?_, fun g hg => ?_⟩
      · cases hg
      · cases hg
  | openFile file g gs =>
      refine ⟨fun hclosed => absurd rfl (hclosed g), fun g' hg' => ?_⟩
      simp
  | write file g gs =>
      refine ⟨fun _ g' gs' hgs => ?_, fun g' hg' => ?_⟩
      · cases hgs
        have hfile : file ≠ none := h.opened g rfl
        rcases file with _ | text
        · exact absurd rfl hfile
        · rfl
      · cases hg'
  | stop file g gs =>
      refine ⟨fun _ => h.closed fun g' hg' => ?_, fun g' hg' => ?_⟩
      · cases hg'
      · cases hg'
  | crash file p gs =>
      refine ⟨fun _ => h.closed (hcrash rfl), fun g hg => ?_⟩
      cases hg
  | cleanUp => exact absurd rfl hclean

theorem upToDate_empty (i : NodeId) : UpToDate (empty.node i) where
  closed := fun _ g gs hgs => by cases hgs
  opened := fun g hg => by cases hg

theorem upToDate_step (h : ∀ i, UpToDate (d.node i)) (hcareful : d.Careful e) :
    ∀ i, UpToDate ((d.step e).node i) := by
  intro i
  refine (h i).change (step_change d e i) ?_ ?_
  · intro he
    rw [he] at hcareful
    exact hcareful
  · intro he
    rw [he] at hcareful
    exact hcareful

/-- **In a careful history every generation is fresh.** -/
theorem findsKept_of_careful {es : List LaunchEvent} (h : Along step Careful empty es) :
    Along step FindsKept empty es := by
  refine along_iff.mpr fun pre e hpre i he hdown g gs hgs => ?_
  obtain ⟨hbefore, hcareful⟩ := along_snoc.mp (h.initial hpre)
  have hupToDate := hbefore.invariant (I := fun d => ∀ i, UpToDate (d.node i))
    upToDate_empty fun d e hd he => upToDate_step hd he
  constructor
  · refine (hupToDate i).closed (fun g' hopened => ?_) g gs hgs
    rw [show (run step empty pre).process i = .opened g' from hopened] at hdown
    cases hdown
  · rw [he] at hcareful
    refine hcareful g ?_
    rw [hgs]
    exact List.mem_cons_self

end WorkDir

end DistKV

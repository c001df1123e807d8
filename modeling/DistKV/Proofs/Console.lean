/-
The shell is a dictionary.

As long as the nodes stay where they are and requests come through, a distributor and its
servers answer like one dictionary (`Failover.lean`), and a refresh that finds the same nodes
alive changes no route.  So the command loop at work on them is the command loop at work on a
dictionary, line for line and call for call, and calls that are typed are answered as a
dictionary answers them.
-/
import DistKV.Console
import DistKV.Proofs.CommandLoop
import DistKV.Proofs.Failover
import DistKV.Proofs.Refresh

namespace DistKV

open Machine Words

/-! ### A dictionary behind the loop -/

abbrev Dictionary := Key → Option Bytes

/-- A dictionary that carries out calls; nothing goes wrong, and there is nothing to refresh. -/
def Service.dictionary : Service Dictionary where
  exec := fun c op ref =>
    (match op with
      | .get key => some ((ref key).getD rpcFailed)
      | _ => none, refStep ref (.call op c))
  refresh := fun _ ref => ref

/-- The nodes of `m` are alive and where they are, if the answer names any. -/
def Steady (D : Deployment) (m : NodeMap) (members : Option (List MemberRecord)) : Prop :=
  ∀ ms, members = some ms → (∃ r ∈ ms, r.status = .alive) →
    (∀ r ∈ ms, r.status = .alive →
      r.nodeId ∈ m ∧ 0 ≤ r.nodeId ∧ stripScheme r.endpoint = D.endpoint r.nodeId) ∧
    ∀ i ∈ m, ∃ r ∈ ms, r.status = .alive ∧ r.nodeId = i

variable {D : Deployment} {m : NodeMap}

theorem Steady.locates {ms : List MemberRecord} (h : Steady D m (some ms))
    (halive : ∃ r ∈ ms, r.status = .alive) :
    D.Locates (liveMap ms) ∧ ∀ i, i ∈ liveMap ms ↔ i ∈ m := by
  obtain ⟨hrecords, hall⟩ := h ms rfl halive
  have hmem := @KVDistributor.mem_liveMap ms
  refine ⟨⟨fun i hi => ?_, fun i hi => ?_⟩, fun i => ⟨fun hi => ?_, fun hi => ?_⟩⟩
  · obtain ⟨endpoint, hlookup⟩ := Option.isSome_iff_exists.mp (AList.lookup_isSome.mpr hi)
    rw [hlookup]
    rw [lookup_liveMap, Option.map_eq_some_iff] at hlookup
    obtain ⟨r, hr, rfl⟩ := hlookup
    have hr := List.mem_of_getLast? hr
    rw [List.mem_filter, List.mem_filter, decide_eq_true_iff, decide_eq_true_iff] at hr
    rw [(hrecords r hr.1.1 hr.1.2).2.2, hr.2]
  · obtain ⟨r, hr, hstatus, rfl⟩ := (hmem i).mp hi
    exact (hrecords r hr hstatus).2.1
  · obtain ⟨r, hr, hstatus, rfl⟩ := (hmem i).mp hi
    exact (hrecords r hr hstatus).1
  · exact (hmem i).mpr (hall i hi)

namespace Session

variable {V : Int} {s : Session} {c : Conditions} {ref : Dictionary}

/-- A smooth call returns what it would return on the dictionary. -/
theorem Replicated.returns (h : s.Replicated D ref) (hs : s.InOrder D V)
    (hkeys : ∀ key, s.Placed key) {op : Op} (he : (Event.call op c).Smooth) :
    (s.exec c op).1 = (Service.dictionary.exec c op ref).1 := by
  obtain ⟨-, hc, hd⟩ := he
  cases hw : op.storeOp with
  | some w =>
      rw [exec_of_write hs.toWired hw (hkeys op.key)]
      cases op with
      | get key => cases hw
      | _ => rfl
  | none =>
      obtain ⟨key, rfl⟩ := Op.eq_get_of_storeOp hw
      have hserves := serves_of_smooth hc hd s.dist
      rw [hs.result_get (hkeys key), (h key).fetch (Or.inl ((hserves _).readable key))]
      rfl

/-- A map of the same nodes changes no route. -/
theorem Replicated.rebuild (h : s.Replicated D ref) (hs : s.Wired D V) (hV : 1 ≤ V)
    (hm : ∀ i, i ∈ m ↔ i ∈ s.dist.nodeToIp) : (s.rebuild m V).Replicated D ref := by
  obtain ⟨r, hr⟩ := hs.ring
  intro key
  have hroutes := @ConsistentHashRing.routes_alike s.dist.hashRing r m s.dist.nodeToIp V hV hm key
  obtain ⟨hp, hb⟩ := hroutes
  have hprimary : (s.rebuild m V).dist.primary key = s.dist.primary key := by
    unfold KVDistributor.primary
    rw [hr] at hp ⊢
    exact hp
  have hbuddy : (s.rebuild m V).dist.buddy key = s.dist.buddy key := by
    unfold KVDistributor.buddy
    rw [hr] at hb ⊢
    exact hb
  rw [hprimary, hbuddy]
  exact h key

end Session

/-! ### Lines -/

/-- What a line stores is proper. -/
def Sensible (line : Bytes) : Prop := ∀ op, readCommand line = some (.call op) → op.IsProper

variable {line : Bytes} {command : Command} {draws : Draws} {op : Op}

theorem insertions_proper (hdraws : ∀ i, Proper (draws.value i)) (hop : op ∈ insertions draws) :
    op.IsProper := by
  obtain ⟨i, -, rfl⟩ := List.mem_map.mp hop
  exact (hdraws i).insert _

theorem Sensible.ops_proper (h : Sensible line) (hline : readCommand line = some command)
    (hdraws : ∀ i, Proper (draws.value i)) (hop : op ∈ command.ops draws) : op.IsProper := by
  cases command with
  | call op' =>
      rw [List.mem_singleton.mp hop]
      exact h op' hline
  | benchmark =>
      rcases List.mem_append.mp hop with hop | hop
      · exact insertions_proper hdraws hop
      · obtain ⟨i, -, rfl⟩ := List.mem_map.mp hop
        exact isProper_get _
  | benchmark1 =>
      rcases List.mem_append.mp hop with hop | hop
      · exact insertions_proper hdraws hop
      · obtain ⟨i, -, rfl⟩ := List.mem_map.mp hop
        exact isProper_get _
  | _ => cases hop

/-- What an iteration reads, and what it adds to the calls. -/
theorem CommandLoop.iterate_adds (s : CommandLoop) (draws : Draws) :
    ∃ ops, (s.iterate draws).calls = s.calls ++ ops ∧ (s.iterate draws).lines <:+ s.lines ∧
      ∀ op ∈ ops, ∃ line ∈ s.lines, ∃ command, readCommand line = some command ∧
        op ∈ command.ops draws := by
  have hnone : (s.iterate draws).calls = s.calls → (s.iterate draws).lines <:+ s.lines →
      ∃ ops, (s.iterate draws).calls = s.calls ++ ops ∧ (s.iterate draws).lines <:+ s.lines ∧
        ∀ op ∈ ops, ∃ line ∈ s.lines, ∃ command, readCommand line = some command ∧
          op ∈ command.ops draws :=
    fun hcalls hlines => ⟨[], hcalls.trans (List.append_nil _).symm, hlines,
      List.forall_mem_nil _⟩
  by_cases hphase : s.phase = .reading
  · obtain ⟨lines, phase, calls⟩ := s
    obtain rfl : phase = .reading := hphase
    cases lines with
    | nil => exact hnone (by rw [iterate_nil]) (by rw [iterate_nil])
    | cons line lines =>
        have hrest : lines <:+ line :: lines := List.suffix_cons line lines
        rw [iterate_cons] at hnone ⊢
        split at hnone
        · exact hnone rfl hrest
        · exact hnone rfl hrest
        · rename_i command _ hcommand
          exact ⟨command.ops draws, rfl, hrest,
            fun op hop => ⟨line, List.mem_cons_self, command, hcommand, hop⟩⟩
  · exact hnone (by rw [iterate_of_ne hphase]) (by rw [iterate_of_ne hphase])

/-! ### Two loops with the same events -/

/-- What the membership thread and the benchmarks bring is proper, and calls come through. -/
def ConsoleEvent.Smooth (D : Deployment) (m : NodeMap) : ConsoleEvent → Prop
  | .iterate draws => ∀ i, Proper (draws.value i)
  | .call c => c.Ample ∧ c.Delivered
  | .refresh members => Steady D m members

namespace Console

open KVDistributor (defaultVirtualNodes)

variable {s : Console Session} {t : Console Dictionary} {e : ConsoleEvent} {i : NodeId}

/-- A loop on the servers that is where a loop on a dictionary is. -/
structure Mirrors (D : Deployment) (m : NodeMap) (s : Console Session) (t : Console Dictionary) :
    Prop where
  loop : s.loop = t.loop
  pending : s.pending = t.pending
  returned : s.returned = t.returned
  inOrder : s.store.InOrder D defaultVirtualNodes
  replicated : s.store.Replicated D t.store
  ids : ∀ i, i ∈ s.store.dist.nodeToIp ↔ i ∈ m
  lines : ∀ line ∈ s.loop.lines, Sensible line
  proper : ∀ op ∈ s.pending, op.IsProper

theorem Mirrors.iterate (h : Mirrors D m s t) {draws : Draws}
    (hdraws : ∀ i, Proper (draws.value i)) :
    Mirrors D m (step .distributor s (.iterate draws)) (step .dictionary t (.iterate draws)) := by
  obtain ⟨loop, store, pending, returned⟩ := s
  obtain ⟨_, ref, _, _⟩ := t
  obtain ⟨hloop, hpending, hreturned, hinOrder, hreplicated, hids, hlines, hproper⟩ := h
  cases hloop
  cases hpending
  cases hreturned
  cases pending with
  | cons op pending => exact ⟨rfl, rfl, rfl, hinOrder, hreplicated, hids, hlines, hproper⟩
  | nil =>
      obtain ⟨ops, hcalls, hsuffix, hops⟩ := loop.iterate_adds draws
      refine ⟨rfl, rfl, rfl, hinOrder, hreplicated, hids,
        fun line hline => hlines line (hsuffix.subset hline), fun op hop => ?_⟩
      have hop : op ∈ (loop.iterate draws).calls.drop loop.calls.length := hop
      rw [hcalls, List.drop_left] at hop
      obtain ⟨line, hmem, command, hcommand, hop⟩ := hops op hop
      exact (hlines line hmem).ops_proper hcommand hdraws hop

theorem Mirrors.call (h : Mirrors D m s t) (hi : i ∈ m) {c : Conditions} (hc : c.Ample)
    (hd : c.Delivered) :
    Mirrors D m (step .distributor s (.call c)) (step .dictionary t (.call c)) := by
  obtain ⟨loop, store, pending, returned⟩ := s
  obtain ⟨_, ref, _, _⟩ := t
  obtain ⟨hloop, hpending, hreturned, hinOrder, hreplicated, hids, hlines, hproper⟩ := h
  cases hloop
  cases hpending
  cases hreturned
  cases pending with
  | nil => exact ⟨rfl, rfl, rfl, hinOrder, hreplicated, hids, hlines, hproper⟩
  | cons op pending =>
      have hop := hproper op List.mem_cons_self
      have hkeys : ∀ key, store.Placed key :=
        hinOrder.toWired.placed (by decide) ((hids i).mpr hi)
      have hsmooth : (Event.call op c).Smooth := ⟨hop, hc, hd⟩
      refine ⟨rfl, rfl, ?_, hinOrder.exec hop (hkeys op.key),
        hreplicated.exec hinOrder hkeys hsmooth, fun j => ?_, hlines,
        fun op' hop' => hproper op' (List.mem_cons_of_mem op hop')⟩
      · show returned ++ [_] = returned ++ [_]
        exact congrArg (returned ++ [·]) (hreplicated.returns hinOrder hkeys hsmooth)
      · show j ∈ (store.exec c op).2.dist.nodeToIp ↔ j ∈ m
        rw [hinOrder.dist_exec (hkeys op.key)]
        exact hids j

theorem Mirrors.refresh (h : Mirrors D m s t) {members : Option (List MemberRecord)}
    (hm : Steady D m members) :
    Mirrors D m (step .distributor s (.refresh members))
      (step .dictionary t (.refresh members)) := by
  have hsame : (s.store.dist.fetchMembershipFromServer members).2 = s.store.dist →
      Mirrors D m (step .distributor s (.refresh members))
        (step .dictionary t (.refresh members)) := by
    intro hdist
    have hstep : step .distributor s (.refresh members) = s := by
      unfold step Service.distributor
      dsimp only
      rw [hdist]
    rw [hstep]
    exact h
  cases members with
  | none => exact hsame rfl
  | some ms =>
      by_cases hkeys : (liveMap ms).keys = []
      · exact hsame (by rw [KVDistributor.fetch_of_no_live hkeys])
      · by_cases hperm : (liveMap ms).entries.Perm s.store.dist.nodeToIp.entries
        · exact hsame (by rw [KVDistributor.fetch_of_same hkeys hperm])
        · obtain ⟨j, hj⟩ := List.exists_mem_of_ne_nil _ hkeys
          obtain ⟨r, hr, halive, -⟩ := (KVDistributor.mem_liveMap j).mp (AList.mem_keys.mpr hj)
          obtain ⟨hlocates, hmem⟩ := hm.locates ⟨r, hr, halive⟩
          have hstep : step .distributor s (.refresh (some ms)) =
              { s with store := s.store.rebuild (liveMap ms) defaultVirtualNodes } := by
            unfold step Service.distributor Session.rebuild
            dsimp only
            rw [KVDistributor.fetch_of_new hkeys hperm]
          rw [hstep]
          exact ⟨h.loop, h.pending, h.returned, h.inOrder.rebuild hlocates,
            h.replicated.rebuild h.inOrder.toWired (by decide)
              fun i => (hmem i).trans (h.ids i).symm, hmem, h.lines, h.proper⟩

theorem Mirrors.step (h : Mirrors D m s t) (hi : i ∈ m) (he : e.Smooth D m) :
    Mirrors D m (step .distributor s e) (step .dictionary t e) := by
  cases e with
  | iterate draws => exact h.iterate he
  | call c => exact h.call hi he.1 he.2
  | refresh members => exact h.refresh he

theorem mirrors_start {store : Session} (hstore : store.Wired D defaultVirtualNodes)
    (hempty : store.Empty D) {lines : List Bytes} (hlines : ∀ line ∈ lines, Sensible line) :
    Mirrors D store.dist.nodeToIp (start lines store) (start lines fun _ => none) where
  loop := rfl
  pending := rfl
  returned := rfl
  inOrder := hempty.inOrder hstore
  replicated := hempty.replicated
  ids := fun _ => Iff.rfl
  lines := hlines
  proper := List.forall_mem_nil _

/-- **The shell is a dictionary.**  Over empty servers that stay where they are, whatever is
typed and whenever the membership thread refreshes the map, the loop reads the same lines,
makes the same calls and gets the same answers as on a dictionary. -/
theorem shell_is_a_dictionary (D : Deployment) (store : Session)
    (hstore : store.Wired D defaultVirtualNodes) (hempty : store.Empty D)
    (hnode : ∃ i, i ∈ store.dist.nodeToIp) (lines : List Bytes)
    (hlines : ∀ line ∈ lines, Sensible line) (es : List ConsoleEvent)
    (hes : ∀ e ∈ es, e.Smooth D store.dist.nodeToIp) :
    (run (step .distributor) (start lines store) es).loop =
        (run (step .dictionary) (start lines fun _ => none) es).loop ∧
      (run (step .distributor) (start lines store) es).pending =
        (run (step .dictionary) (start lines fun _ => none) es).pending ∧
      (run (step .distributor) (start lines store) es).returned =
        (run (step .dictionary) (start lines fun _ => none) es).returned := by
  obtain ⟨i, hi⟩ := hnode
  have hend : Mirrors D store.dist.nodeToIp (run (step .distributor) (start lines store) es)
      (run (step .dictionary) (start lines fun _ => none) es) :=
    run_relates (fun _ _ _ he h => h.step hi he) hes (mirrors_start hstore hempty hlines)
  exact ⟨hend.loop, hend.pending, hend.returned⟩

/-- A value is stored, nobody answers the membership thread, and the value is read. -/
def putThenGet : List ConsoleEvent :=
  [.iterate ⟨fun _ => str "x", fun _ => 0⟩, .call .fine, .refresh none,
   .iterate ⟨fun _ => str "x", fun _ => 0⟩, .call .fine]

theorem putThenGet_smooth {D : Deployment} {m : NodeMap} :
    ∀ e ∈ putThenGet, e.Smooth D m := by
  have hproper : Proper (str "x") := ⟨rfl, rfl⟩
  intro e he
  simp only [putThenGet, List.mem_cons, List.not_mem_nil, or_false] at he
  rcases he with rfl | rfl | rfl | rfl | rfl
  · exact fun _ => hproper
  · exact ⟨Conditions.fine_ample, Conditions.fine_delivered⟩
  · intro ms hms
    cases hms
  · exact fun _ => hproper
  · exact ⟨Conditions.fine_ample, Conditions.fine_delivered⟩

theorem shell_is_a_dictionary_two :
    (run (step .distributor) (start [str "put 1 x", str "get 1"]
      (Session.start .byLength defaultVirtualNodes [0, 1])) putThenGet).returned =
        [none, some (str "x")] := by
  have hput : readCommand (str "put 1 x") = some (.call (.insert 1 (str "x"))) := by decide +kernel
  have hget : readCommand (str "get 1") = some (.call (.get 1)) := by decide +kernel
  refine (shell_is_a_dictionary .byLength (Session.start .byLength defaultVirtualNodes [0, 1])
    (Session.start_wired (by decide)) (fun _ _ => Session.start_column _ _)
    ⟨0, Deployment.mem_mapOf.mpr List.mem_cons_self⟩ [str "put 1 x", str "get 1"] ?_ putThenGet
    putThenGet_smooth).2.2.trans (by decide +kernel)
  intro line hline op hop
  simp only [List.mem_cons, List.not_mem_nil, or_false] at hline
  rcases hline with rfl | rfl
  · rw [hput] at hop
    cases hop
    exact Proper.insert ⟨rfl, rfl⟩ 1
  · rw [hget] at hop
    cases hop
    exact isProper_get 1

end Console

/-! ### Calls that are typed -/

/-- The line that asks for a call. -/
def Op.typedLine : Op → Bytes
  | .insert key value => typed (str "put") key value
  | .update key newValue => typed (str "update") key newValue
  | .deleteKey key => str "delete" ++ (str " " ++ toStdString key)
  | .get key => str "get" ++ (str " " ++ toStdString key)

/-- A call that a line can ask for: the key is an `int`, and a value is words with one blank
between each two. -/
structure Op.Typable (op : Op) : Prop where
  key : IsInt op.key
  value : ∀ w value, op.write = some w → w.value = some value → SingleSpaced value

theorem parseCommand_key {action : Bytes} (haction : IsWord isSpace action) (k : Int) :
    parseCommand (action ++ (str " " ++ toStdString k)) = [action, toStdString k] := by
  have hblank : isSpace 32 = true := rfl
  exact (split_word_append haction hblank _).trans
    (congrArg (action :: ·) (split_word (isWord_toStdString k)))

theorem readCommand_typedLine (h : op.Typable) : readCommand op.typedLine = some (.call op) := by
  cases op with
  | insert key value =>
      exact (write_typed_iff isWord_put dispatch_put (by simp) h.key).mpr (h.value _ value rfl rfl)
  | update key value =>
      exact (write_typed_iff isWord_update dispatch_update (by simp) h.key).mpr
        (h.value _ value rfl rfl)
  | deleteKey key =>
      have hk : IsInt key := h.key
      have hword : IsWord isSpace (str "delete") := isWord_of_all (by decide) rfl
      rw [Op.typedLine, readCommand_eq (parseCommand_key hword key), dispatch_delete,
        keyed_of_int hk]
  | get key =>
      have hk : IsInt key := h.key
      have hword : IsWord isSpace (str "get") := isWord_of_all (by decide) rfl
      rw [Op.typedLine, readCommand_eq (parseCommand_key hword key), dispatch_get,
        keyed_of_int hk]

/-- What a dictionary holds after some calls. -/
def Dictionary.after (ref : Dictionary) (ops : List Op) : Dictionary :=
  ops.foldl (fun ref op => (Service.dictionary.exec .fine op ref).2) ref

/-- What a dictionary returns to some calls, one after another. -/
def Dictionary.answers (ref : Dictionary) : List Op → List (Option Bytes)
  | [] => []
  | op :: ops =>
      (Service.dictionary.exec .fine op ref).1 ::
        answers (Service.dictionary.exec .fine op ref).2 ops

namespace Dictionary

theorem after_snoc (ref : Dictionary) (ops : List Op) (op : Op) :
    ref.after (ops ++ [op]) = (Service.dictionary.exec .fine op (ref.after ops)).2 :=
  List.foldl_concat _ ref op ops

theorem answers_snoc (ref : Dictionary) (ops : List Op) (op : Op) :
    ref.answers (ops ++ [op]) =
      ref.answers ops ++ [(Service.dictionary.exec .fine op (ref.after ops)).1] := by
  induction ops generalizing ref with
  | nil => rfl
  | cons op' ops ih => exact congrArg (_ :: ·) (ih _)

end Dictionary

namespace Console

open KVDistributor (defaultVirtualNodes)

/-- A loop on an empty dictionary, with the calls `made` behind it and `rest` not yet read. -/
structure Reads (made rest : List Op) (t : Console Dictionary) : Prop where
  lines : t.loop.lines = rest.map Op.typedLine
  phase : t.loop.phase = .reading
  calls : t.loop.calls = made ++ t.pending
  store : t.store = Dictionary.after (fun _ => none) made
  returned : t.returned = Dictionary.answers (fun _ => none) made

variable {ops made rest : List Op} {t : Console Dictionary}

/-- An event takes the loop along the calls that are typed. -/
theorem Reads.step (h : t.Reads made rest) (hops : ops = made ++ t.pending ++ rest)
    (htypable : ∀ op ∈ rest, op.Typable) (e : ConsoleEvent) :
    ∃ made' rest', (step .dictionary t e).Reads made' rest' ∧ rest' <:+ rest ∧
      ops = made' ++ (step .dictionary t e).pending ++ rest' := by
  obtain ⟨⟨lines, phase, calls⟩, ref, pending, returned⟩ := t
  obtain ⟨hlines, hphase, hcalls, hstore, hreturned⟩ := h
  dsimp only at hlines hphase hcalls hstore hreturned hops
  subst hlines hphase hcalls hstore hreturned
  cases e with
  | refresh members => exact ⟨made, rest, ⟨rfl, rfl, rfl, rfl, rfl⟩, List.suffix_rfl, hops⟩
  | call c =>
      cases pending with
      | nil => exact ⟨made, rest, ⟨rfl, rfl, rfl, rfl, rfl⟩, List.suffix_rfl, hops⟩
      | cons op pending =>
          refine ⟨made ++ [op], rest, ⟨rfl, rfl, ?_, (Dictionary.after_snoc _ made op).symm,
            (Dictionary.answers_snoc _ made op).symm⟩, List.suffix_rfl, ?_⟩
          · exact (List.append_cons made op pending)
          · rw [hops, List.append_cons made op pending]
            rfl
  | iterate draws =>
      cases pending with
      | cons op pending => exact ⟨made, rest, ⟨rfl, rfl, rfl, rfl, rfl⟩, List.suffix_rfl, hops⟩
      | nil =>
          cases rest with
          | nil =>
              have hstep : Console.step .dictionary
                  ⟨⟨[], .reading, made ++ []⟩, Dictionary.after (fun _ => none) made, [],
                    Dictionary.answers (fun _ => none) made⟩ (.iterate draws) =
                  ⟨⟨[], .reading, made ++ []⟩, Dictionary.after (fun _ => none) made, [],
                    Dictionary.answers (fun _ => none) made⟩ := by
                unfold Console.step
                dsimp only
                rw [CommandLoop.iterate_nil, List.drop_length]
              rw [List.map_nil, hstep]
              exact ⟨made, [], ⟨rfl, rfl, rfl, rfl, rfl⟩, List.suffix_rfl, hops⟩
          | cons op rest =>
              have hread := readCommand_typedLine (htypable op List.mem_cons_self)
              have hloop : CommandLoop.iterate ⟨(op :: rest).map Op.typedLine, .reading, made ++ []⟩
                  draws = ⟨rest.map Op.typedLine, .reading, made ++ [] ++ [op]⟩ := by
                rw [List.map_cons, CommandLoop.iterate_cons, hread]
                rfl
              refine ⟨made, rest, ?_, List.suffix_cons op rest, ?_⟩
              · unfold Console.step
                dsimp only
                rw [hloop, List.drop_left]
                exact ⟨rfl, rfl, by rw [List.append_nil], rfl, rfl⟩
              · unfold Console.step
                dsimp only
                rw [hloop, List.drop_left, hops, List.append_nil, List.append_assoc]
                rfl

/-- So does a run. -/
theorem reads_run (htypable : ∀ op ∈ ops, op.Typable) (es : List ConsoleEvent) :
    ∃ made rest, (run (Console.step .dictionary)
        (start (ops.map Op.typedLine) fun _ => none) es).Reads made rest ∧ rest <:+ ops ∧
      ops = made ++ (run (Console.step .dictionary)
        (start (ops.map Op.typedLine) fun _ => none) es).pending ++ rest := by
  induction es using List.reverseRecOn with
  | nil => exact ⟨[], ops, ⟨rfl, rfl, rfl, rfl, rfl⟩, List.suffix_rfl, rfl⟩
  | append_singleton es e ih =>
      obtain ⟨made, rest, h, hsuffix, hops⟩ := ih
      rw [run_snoc]
      obtain ⟨made', rest', h', hsuffix', hops'⟩ :=
        h.step hops (fun op hop => htypable op (hsuffix.subset hop)) e
      exact ⟨made', rest', h', hsuffix'.trans hsuffix, hops'⟩

/-- **Calls that are typed are answered as a dictionary answers them**: one line for each, in
their order, none left out and none twice. -/
theorem typed_calls_answered (D : Deployment) (store : Session)
    (hstore : store.Wired D defaultVirtualNodes) (hempty : store.Empty D)
    (hnode : ∃ i, i ∈ store.dist.nodeToIp) (ops : List Op)
    (hops : ∀ op ∈ ops, op.Typable ∧ op.IsProper) (es : List ConsoleEvent)
    (hes : ∀ e ∈ es, e.Smooth D store.dist.nodeToIp) :
    ∃ made, made <+: ops ∧
      (run (Console.step .distributor) (start (ops.map Op.typedLine) store) es).returned =
        Dictionary.answers (fun _ => none) made ∧
      ((run (Console.step .distributor) (start (ops.map Op.typedLine) store) es).loop.lines = [] →
        (run (Console.step .distributor) (start (ops.map Op.typedLine) store) es).pending = [] →
        made = ops) := by
  obtain ⟨i, hi⟩ := hnode
  have hlines : ∀ line ∈ ops.map Op.typedLine, Sensible line := by
    intro line hline op hop
    obtain ⟨op', hmem, rfl⟩ := List.mem_map.mp hline
    rw [readCommand_typedLine (hops op' hmem).1] at hop
    cases hop
    exact (hops op hmem).2
  have hend : Mirrors D store.dist.nodeToIp
      (run (Console.step .distributor) (start (ops.map Op.typedLine) store) es)
      (run (Console.step .dictionary) (start (ops.map Op.typedLine) fun _ => none) es) :=
    run_relates (fun _ _ _ he h => h.step hi he) hes (mirrors_start hstore hempty hlines)
  obtain ⟨made, rest, h, -, hall⟩ := reads_run (fun op hop => (hops op hop).1) es
  refine ⟨made, ⟨_, (List.append_assoc ..).symm.trans hall.symm⟩,
    hend.returned.trans h.returned, fun hread hdone => ?_⟩
  rw [hend.loop, h.lines, List.map_eq_nil_iff] at hread
  rw [hend.pending] at hdone
  rw [hall, hdone, hread, List.append_nil, List.append_nil]

theorem typed_calls_answered_two :
    ∃ made, made <+: [.insert 1 (str "x"), .get 1] ∧
      (run (Console.step .distributor) (start ([.insert 1 (str "x"), .get 1].map Op.typedLine)
        (Session.start .byLength defaultVirtualNodes [0, 1])) putThenGet).returned =
          Dictionary.answers (fun _ => none) made := by
  have hproper : Proper (str "x") := ⟨rfl, rfl⟩
  have hops : ∀ op ∈ [Op.insert 1 (str "x"), Op.get 1], op.Typable ∧ op.IsProper := by
    intro op hop
    simp only [List.mem_cons, List.not_mem_nil, or_false] at hop
    rcases hop with rfl | rfl
    · refine ⟨⟨by decide, ?_⟩, hproper.insert 1⟩
      intro w value hw hv
      cases hw
      cases hv
      exact ⟨[str "x"], by decide, fun w hw => by
        rw [List.mem_singleton.mp hw]
        exact isWord_of_all (by decide) rfl, rfl⟩
    · refine ⟨⟨by decide, ?_⟩, isProper_get 1⟩
      intro w value hw
      cases hw
  obtain ⟨made, hprefix, hreturned, -⟩ := typed_calls_answered .byLength
    (Session.start .byLength defaultVirtualNodes [0, 1]) (Session.start_wired (by decide))
    (fun _ _ => Session.start_column _ _) ⟨0, Deployment.mem_mapOf.mpr List.mem_cons_self⟩
    [.insert 1 (str "x"), .get 1] hops putThenGet putThenGet_smooth
  exact ⟨made, hprefix, hreturned⟩

end Console

end DistKV

/-
When the command loop ends, and when it indexes out of range.

Of all the indexes into `args` only the first one is not guarded (`exists_dispatch`), so it is out
of range exactly for a line that has characters but no words.  What becomes of the loop is
decided by the first line that is such a line or an `exit`.  If there is neither, the input
comes to its end, and from then on every iteration reads an empty line and starts over.
-/
import DistKV.CommandLoop
import DistKV.Lib.Run
import DistKV.Proofs.Shell

namespace DistKV

open Words Machine

variable {args : List Bytes} {line : Bytes} {lines : List Bytes} {draws : Draws}

/-! ### Indexes that are in range -/

theorem keyed_ne_exit (key : Bytes) (op : Key → Op) : keyed key op ≠ .exit := by
  unfold keyed
  split
  · exact Command.noConfusion
  · exact Command.noConfusion

/-- The guards are enough for every index but the first. -/
theorem exists_dispatch (action : Bytes) (rest : List Bytes) :
    ∃ command, dispatch (action :: rest) = some command ∧
      (command = .exit ↔ action = str "exit") := by
  have hkey : 2 ≤ (action :: rest).length → ∃ key args, rest = key :: args := fun h =>
    List.exists_cons_of_ne_nil (List.ne_nil_of_length_pos (by rw [List.length_cons] at h; omega))
  have hvalue : 3 ≤ (action :: rest).length → ∃ key args, rest = key :: args ∧ args ≠ [] := by
    intro h
    obtain ⟨key, args, rfl⟩ := hkey (by omega)
    refine ⟨key, args, rfl, List.ne_nil_of_length_pos ?_⟩
    rw [List.length_cons, List.length_cons] at h
    omega
  unfold dispatch
  rw [List.getElem?_cons_zero, Option.bind_eq_bind, Option.bind_some]
  split_ifs with hexit _ hput hget hupdate hdelete
  · exact ⟨.exit, rfl, iff_of_true rfl hexit⟩
  · exact ⟨.help, rfl, iff_of_false Command.noConfusion hexit⟩
  · obtain ⟨key, args, rfl, hargs⟩ := hvalue hput.2
    exact ⟨_, callWithKey_value .insert hargs, iff_of_false (keyed_ne_exit _ _) hexit⟩
  · obtain ⟨key, args, rfl⟩ := hkey hget.2
    exact ⟨_, callWithKey_eq fun _ => rfl, iff_of_false (keyed_ne_exit _ _) hexit⟩
  · obtain ⟨key, args, rfl, hargs⟩ := hvalue hupdate.2
    exact ⟨_, callWithKey_value .update hargs, iff_of_false (keyed_ne_exit _ _) hexit⟩
  · obtain ⟨key, args, rfl⟩ := hkey hdelete.2
    exact ⟨_, callWithKey_eq fun _ => rfl, iff_of_false (keyed_ne_exit _ _) hexit⟩
  · exact ⟨.benchmark, rfl, iff_of_false Command.noConfusion hexit⟩
  · exact ⟨.benchmark1, rfl, iff_of_false Command.noConfusion hexit⟩
  · exact ⟨.unknown, rfl, iff_of_false Command.noConfusion hexit⟩

theorem dispatch_eq_none_iff : dispatch args = none ↔ args = [] := by
  cases args with
  | nil => exact iff_of_true rfl rfl
  | cons action rest =>
      obtain ⟨command, hcommand, -⟩ := exists_dispatch action rest
      rw [hcommand]
      exact iff_of_false (Option.some_ne_none command) (List.cons_ne_nil action rest)

theorem dispatch_eq_exit_iff : dispatch args = some .exit ↔ args.head? = some (str "exit") := by
  cases args with
  | nil => exact iff_of_false (by decide) (by decide)
  | cons action rest =>
      obtain ⟨command, hcommand, hexit⟩ := exists_dispatch action rest
      rw [hcommand, Option.some.injEq, hexit, List.head?_cons, Option.some.injEq]

/-! ### Lines that end the loop -/

/-- A line of nothing but white space. -/
def Blank (line : Bytes) : Prop := line ≠ [] ∧ ∀ c ∈ line, isSpace c = true

/-- A line that has `exit` for its first word. -/
def Exits (line : Bytes) : Prop :=
  ∃ blanks behind, line = blanks ++ (str "exit" ++ behind) ∧ (∀ c ∈ blanks, isSpace c = true) ∧
    ∀ c ∈ behind.head?, isSpace c = true

theorem readCommand_eq_none_iff : readCommand line = none ↔ Blank line := by
  unfold readCommand Blank
  by_cases hline : line = []
  · rw [if_pos hline]
    exact iff_of_false (Option.some_ne_none _) fun h => h.1 hline
  · rw [if_neg hline, and_iff_right hline, ← next_eq_none_iff, dispatch_eq_none_iff,
      ← List.head?_eq_none_iff]
    unfold parseCommand
    rw [head?_split, Option.map_eq_none_iff]

theorem isWord_exit : IsWord isSpace (str "exit") := isWord_of_all (by decide) rfl

theorem readCommand_eq_exit_iff : readCommand line = some .exit ↔ Exits line := by
  have hfirst : readCommand line = some .exit ↔ (parseCommand line).head? = some (str "exit") := by
    unfold readCommand
    by_cases hline : line = []
    · rw [if_pos hline, hline]
      exact iff_of_false (by decide) (by decide)
    · rw [if_neg hline]
      exact dispatch_eq_exit_iff
  rw [hfirst]
  unfold parseCommand Exits
  rw [head?_split, Option.map_eq_some_iff]
  constructor
  · rintro ⟨⟨w, behind⟩, hnext, hw⟩
    obtain ⟨blanks, hline, hblanks, -, hbehind⟩ := next_eq_some_iff.mp hnext
    exact ⟨blanks, behind, hw ▸ hline, hblanks, hbehind⟩
  · rintro ⟨blanks, behind, hline, hblanks, hbehind⟩
    exact ⟨(str "exit", behind),
      next_eq_some_iff.mpr ⟨blanks, hline, hblanks, isWord_exit, hbehind⟩, rfl⟩

/-- There is an `exit`, and no blank line before it. -/
def SaysExit (lines : List Bytes) : Prop :=
  ∃ pre line post, lines = pre ++ line :: post ∧ (∀ l ∈ pre, ¬ Blank l) ∧ Exits line

theorem not_saysExit_nil : ¬ SaysExit [] := by
  rintro ⟨pre, line, post, hlines, -⟩
  exact List.append_ne_nil_of_right_ne_nil pre (List.cons_ne_nil line post) hlines.symm

theorem saysExit_cons :
    SaysExit (line :: lines) ↔ Exits line ∨ ¬ Blank line ∧ SaysExit lines := by
  constructor
  · rintro ⟨pre, exit, post, hlines, hpre, hexits⟩
    rcases List.cons_eq_append_iff.mp hlines with ⟨rfl, hhead⟩ | ⟨pre', rfl, hrest⟩
    · cases hhead
      exact Or.inl hexits
    · exact Or.inr ⟨hpre line List.mem_cons_self, pre', exit, post, hrest,
        fun l hl => hpre l (List.mem_cons_of_mem line hl), hexits⟩
  · rintro (hexits | ⟨hblank, pre, exit, post, rfl, hpre, hexits⟩)
    · exact ⟨[], line, lines, rfl, List.forall_mem_nil _, hexits⟩
    · refine ⟨line :: pre, exit, post, rfl, fun l hl => ?_, hexits⟩
      rcases List.mem_cons.mp hl with rfl | hl
      · exact hblank
      · exact hpre l hl

namespace CommandLoop

variable {s : CommandLoop}

/-! ### What becomes of the loop -/

/-- Where lines take a loop that reads them. -/
def fateOf : List Bytes → LoopPhase
  | [] => .reading
  | line :: lines =>
      match readCommand line with
      | none => .outOfRange
      | some .exit => .left
      | some _ => fateOf lines

/-- Where a loop is in the end. -/
def fate (s : CommandLoop) : LoopPhase :=
  match s.phase with
  | .reading => fateOf s.lines
  | phase => phase

theorem iterate_of_ne (h : s.phase ≠ .reading) (draws : Draws) : s.iterate draws = s := by
  unfold iterate
  split
  · exact absurd ‹_› h
  · rfl

/-- At the end of the input nothing happens any more. -/
theorem iterate_nil (calls : List Op) (draws : Draws) :
    iterate ⟨[], .reading, calls⟩ draws = ⟨[], .reading, calls⟩ := by
  show CommandLoop.mk [] .reading (calls ++ []) = _
  rw [List.append_nil]

theorem iterate_cons (line : Bytes) (lines : List Bytes) (calls : List Op) (draws : Draws) :
    iterate ⟨line :: lines, .reading, calls⟩ draws =
      match readCommand line with
      | none => ⟨lines, .outOfRange, calls⟩
      | some .exit => ⟨lines, .left, calls⟩
      | some command => ⟨lines, .reading, calls ++ command.ops draws⟩ := by
  rfl

theorem fate_iterate (s : CommandLoop) (draws : Draws) : (s.iterate draws).fate = s.fate := by
  obtain ⟨lines, phase, calls⟩ := s
  by_cases hphase : phase = .reading
  · subst hphase
    cases lines with
    | nil => rw [iterate_nil]
    | cons line lines =>
        rw [iterate_cons]
        show _ = fateOf (line :: lines)
        unfold fateOf
        split
        · rfl
        · rfl
        · rfl
  · rw [iterate_of_ne hphase]

theorem fate_run (s : CommandLoop) (turns : List Draws) : (run iterate s turns).fate = s.fate :=
  run_eq_of_step fate_iterate s turns

/-- No iteration changes anything any more. -/
def Rests (s : CommandLoop) : Prop := s.phase ≠ .reading ∨ s.lines = []

theorem Rests.iterate (h : s.Rests) (draws : Draws) : (s.iterate draws).Rests := by
  by_cases hphase : s.phase = .reading
  · obtain ⟨lines, phase, calls⟩ := s
    obtain rfl : phase = .reading := hphase
    obtain rfl : lines = [] := h.resolve_left (not_not.mpr rfl)
    rw [iterate_nil]
    exact h
  · rw [iterate_of_ne hphase]
    exact h

theorem length_iterate (h : ¬ s.Rests) (draws : Draws) :
    (s.iterate draws).lines.length < s.lines.length := by
  obtain ⟨lines, phase, calls⟩ := s
  unfold Rests at h
  rw [not_or, not_not] at h
  obtain rfl : phase = .reading := h.1
  obtain ⟨line, lines, rfl⟩ := List.exists_cons_of_ne_nil h.2
  rw [iterate_cons]
  split
  · exact Nat.lt_succ_self _
  · exact Nat.lt_succ_self _
  · exact Nat.lt_succ_self _

/-- One iteration for each line brings the loop to where it stays. -/
theorem phase_run {turns : List Draws} (h : s.lines.length ≤ turns.length) :
    (run iterate s turns).phase = s.fate := by
  have hrests : (run iterate s turns).Rests :=
    run_rests (R := Rests) (M := fun s => s.lines.length) (fun _ draws hs => hs.iterate draws)
      (fun _ hs => List.length_pos_iff.mpr fun hnil => hs (Or.inr hnil))
      (fun _ draws hs => length_iterate hs draws) h
  rw [← fate_run s turns]
  generalize run iterate s turns = t at hrests
  unfold fate
  split
  · rename_i hphase
    rw [hrests.resolve_left (not_not.mpr hphase), hphase]
    rfl
  · rfl

theorem fateOf_eq_left_iff : fateOf lines = .left ↔ SaysExit lines := by
  induction lines with
  | nil => exact iff_of_false LoopPhase.noConfusion not_saysExit_nil
  | cons line lines ih =>
      unfold fateOf
      rw [saysExit_cons, ← readCommand_eq_exit_iff, ← readCommand_eq_none_iff, ← ih]
      split
      · rename_i hnone
        rw [hnone]
        exact iff_of_false LoopPhase.noConfusion (by simp)
      · rename_i hexit
        rw [hexit]
        exact iff_of_true rfl (Or.inl rfl)
      · rename_i command hexit hcommand
        rw [hcommand, or_iff_right fun h => hexit (Option.some.inj h),
          and_iff_right (Option.some_ne_none command)]

/-! ### Ending, and staying in range -/

/-- The loop performs finitely many iterations, whatever the benchmarks draw. -/
def Ends (lines : List Bytes) : Prop :=
  ∃ n, ∀ turns : List Draws, n ≤ turns.length →
    (run iterate { lines := lines } turns).phase ≠ .reading

/-- No iteration indexes `args` out of range. -/
def StaysInRange (lines : List Bytes) : Prop :=
  ∀ turns, (run iterate { lines := lines } turns).phase ≠ .outOfRange

theorem ends_iff : Ends lines ↔ fateOf lines ≠ .reading := by
  constructor
  · rintro ⟨n, hends⟩
    -- as many iterations as it takes, and at least one for each line
    let turns : List Draws := List.replicate (n + lines.length) ⟨fun _ => [], fun _ => 0⟩
    have hlength : turns.length = n + lines.length := List.length_replicate
    have hphase : (run iterate { lines := lines } turns).phase = fateOf lines :=
      phase_run (hlength ▸ Nat.le_add_left _ n)
    rw [← hphase]
    exact hends turns (hlength ▸ Nat.le_add_right n _)
  · intro hfate
    refine ⟨lines.length, fun turns hturns => ?_⟩
    rw [phase_run hturns]
    exact hfate

theorem staysInRange_iff : StaysInRange lines ↔ fateOf lines ≠ .outOfRange := by
  constructor
  · intro hrange
    let turns : List Draws := List.replicate lines.length ⟨fun _ => [], fun _ => 0⟩
    have hphase : (run iterate { lines := lines } turns).phase = fateOf lines :=
      phase_run List.length_replicate.ge
    rw [← hphase]
    exact hrange turns
  · intro hfate turns hout
    have hfateOf : (run iterate { lines := lines } turns).fate = fateOf lines :=
      fate_run { lines := lines } turns
    refine hfate ?_
    rw [← hfateOf]
    unfold fate
    rw [hout]

/-- **When the command loop is safe and terminates**: exactly if an `exit` is typed, and no
line of nothing but white space before it. -/
theorem ends_in_range_iff (lines : List Bytes) :
    Ends lines ∧ StaysInRange lines ↔ SaysExit lines := by
  rw [ends_iff, staysInRange_iff, ← fateOf_eq_left_iff]
  cases fateOf lines with
  | reading => simp
  | left => simp
  | outOfRange => simp

/-- Without any input the loop never ends, and a line with a blank has no first word. -/
theorem blank_line_out_of_range :
    (¬ ∀ lines, Ends lines) ∧ ¬ ∀ lines, StaysInRange lines := by
  constructor
  · intro hall
    exact ends_iff.mp (hall []) rfl
  · intro hall
    refine staysInRange_iff.mp (hall [str " "]) ?_
    have hblank : Blank (str " ") := ⟨by decide, fun c hc => by rw [List.mem_singleton.mp hc]; rfl⟩
    unfold fateOf
    rw [readCommand_eq_none_iff.mpr hblank]

end CommandLoop

end DistKV

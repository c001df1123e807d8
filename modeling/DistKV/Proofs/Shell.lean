/-
What the client shell makes of what is typed.

A line is split into words, and the value of a `put` is its words put together again with one
blank between each two.  So it is the value that was typed exactly if that was words with one
blank between each two to begin with.  The key is what `stoi` finds at the beginning of its
word, whatever comes behind the digits.
-/
import DistKV.Proofs.Decimal
import DistKV.Shell

namespace DistKV

open Words

variable {key v line action : Bytes} {rest : List Bytes} {k : Int}

/-! ### Values -/

theorem join_append_cons (a : UInt8) (w u : Bytes) (ws : List Bytes) :
    join a ((w ++ u) :: ws) = w ++ join a (u :: ws) := by
  cases ws with
  | nil => rfl
  | cons x ws => exact List.append_assoc w u _

theorem foldl_eq_join (arg : Bytes) (args : List Bytes) :
    args.foldl (fun value arg => value ++ (str " " ++ arg)) arg = join 32 (arg :: args) := by
  induction args generalizing arg with
  | nil => rfl
  | cons x args ih =>
      rw [List.foldl_cons, ih]
      exact join_append_cons 32 arg (32 :: x) args |>.trans
        (congrArg (arg ++ ·) (join_append_cons 32 [32] x args))

/-- The loop over the words from the fourth on. -/
theorem foldlM_args (n : Nat) {args : List Bytes} {i : Nat} (hi : i + n = args.length)
    (value : Bytes) :
    (List.range' i n).foldlM
      (fun value i => do
        let arg ← args[i]?
        return value ++ (str " " ++ arg))
      value =
    some ((args.drop i).foldl (fun value arg => value ++ (str " " ++ arg)) value) := by
  induction n generalizing i value with
  | zero =>
      rw [List.drop_of_length_le (by omega)]
      rfl
  | succ n ih =>
      have hlt : i < args.length := by omega
      rw [List.range'_succ, List.foldlM_cons, List.getElem?_eq_getElem hlt,
        List.drop_eq_getElem_cons hlt, List.foldl_cons]
      exact ih (by omega) _

/-- The words from the third on, with one blank between each two. -/
theorem readValue_eq {args : List Bytes} (hargs : args ≠ []) :
    readValue (action :: key :: args) = some (join 32 args) := by
  obtain ⟨arg, args, rfl⟩ := List.exists_cons_of_ne_nil hargs
  unfold readValue
  refine (foldlM_args args.length ?_ arg).trans (congrArg some (foldl_eq_join arg args))
  simp only [List.length_cons]
  omega

/-- Words with one blank between each two. -/
def SingleSpaced (v : Bytes) : Prop :=
  ∃ words, words ≠ [] ∧ (∀ w ∈ words, IsWord isSpace w) ∧ v = join 32 words

theorem singleSpaced_iff :
    SingleSpaced v ↔ parseCommand v ≠ [] ∧ join 32 (parseCommand v) = v := by
  have hblank : isSpace 32 = true := rfl
  exact (join_split_iff hblank).symm

/-! ### Keys -/

/-- What a sign is taken from. -/
theorem takeSign_eq (text : Bytes) : ∃ sgn, (sgn = [] ∨ sgn = str "+" ∨ sgn = str "-") ∧
    text = sgn ++ (takeSign text).2 ∧ (takeSign text).1 = decide (sgn = str "-") := by
  cases text with
  | nil => exact ⟨[], Or.inl rfl, rfl, rfl⟩
  | cons c rest =>
      rw [takeSign_cons]
      by_cases hminus : c = 45
      · rw [if_pos hminus, hminus]
        exact ⟨str "-", Or.inr (Or.inr rfl), rfl, rfl⟩
      · rw [if_neg hminus]
        by_cases hplus : c = 43
        · rw [if_pos hplus, hplus]
          exact ⟨str "+", Or.inr (Or.inl rfl), rfl, rfl⟩
        · rw [if_neg hplus]
          exact ⟨[], Or.inl rfl, rfl, rfl⟩

/-- A text that is a number which an `int` can hold. -/
def DecimalInt (text : Bytes) : Prop :=
  ∃ sgn ds, text = sgn ++ ds ∧ (sgn = [] ∨ sgn = str "+" ∨ sgn = str "-") ∧ ds ≠ [] ∧
    (∀ b ∈ ds, isDigit b = true) ∧ IsInt (decimalValue (decide (sgn = str "-")) ds)

/-- A text with such a number at its beginning. -/
def BeginsWithInt (text : Bytes) : Prop :=
  ∃ number behind, text = number ++ behind ∧ DecimalInt number ∧
    ∀ b ∈ behind.head?, isDigit b = false

theorem dropWhile_word (hkey : IsWord isSpace key) : key.dropWhile isSpace = key := by
  obtain ⟨b, tail, rfl⟩ := List.exists_cons_of_ne_nil hkey.ne_nil
  refine List.dropWhile_cons_of_neg ?_
  rw [hkey.clean b List.mem_cons_self]
  exact Bool.false_ne_true

/-- What `stoi` makes of a sign, digits, and what is behind them. -/
theorem stoi_append {sgn ds behind : Bytes} (hkey : IsWord isSpace (sgn ++ ds ++ behind))
    (hsgn : sgn = [] ∨ sgn = str "+" ∨ sgn = str "-") (hne : ds ≠ [])
    (hds : ∀ b ∈ ds, isDigit b = true) (hbehind : ∀ b ∈ behind.head?, isDigit b = false) :
    stoi (sgn ++ ds ++ behind) =
      if IsInt (decimalValue (decide (sgn = str "-")) ds) then
        some (decimalValue (decide (sgn = str "-")) ds)
      else none := by
  have htake : (ds ++ behind).takeWhile isDigit = ds := by
    rw [List.takeWhile_append_of_pos hds]
    cases behind with
    | nil => exact List.append_nil ds
    | cons b behind =>
        rw [List.takeWhile_cons_of_neg (by rw [hbehind b rfl]; exact Bool.false_ne_true),
          List.append_nil]
  have hhead : ∀ b ∈ (ds ++ behind).head?, isDigit b = true := by
    obtain ⟨c, ds, rfl⟩ := List.exists_cons_of_ne_nil hne
    intro b hb
    cases hb
    exact hds c List.mem_cons_self
  unfold stoi
  rw [dropWhile_word hkey, List.append_assoc, takeSign_append hsgn hhead]
  dsimp only
  rw [htake, if_neg hne]

/-- **When `stoi` reads a key.** -/
theorem stoi_ne_none_iff (hkey : IsWord isSpace key) : stoi key ≠ none ↔ BeginsWithInt key := by
  constructor
  · intro hsome
    obtain ⟨sgn, hsgn, htext, hminus⟩ := takeSign_eq key
    unfold stoi at hsome
    rw [dropWhile_word hkey] at hsome
    dsimp only at hsome
    rw [hminus] at hsome
    generalize (takeSign key).2 = text at htext hsome
    split at hsome
    · exact absurd rfl hsome
    · rename_i hne
      split at hsome
      · rename_i hint
        refine ⟨sgn ++ text.takeWhile isDigit, text.dropWhile isDigit, ?_,
          ⟨sgn, text.takeWhile isDigit, rfl, hsgn, hne, fun b hb => List.mem_takeWhile_imp hb,
            hint⟩,
          fun b hb => ?_⟩
        · rw [List.append_assoc, List.takeWhile_append_dropWhile]
          exact htext
        · have hhead := List.head?_dropWhile_not isDigit text
          rw [Option.mem_def.mp hb] at hhead
          exact hhead
      · exact absurd rfl hsome
  · rintro ⟨number, behind, rfl, ⟨sgn, ds, rfl, hsgn, hne, hds, hint⟩, hbehind⟩
    rw [stoi_append hkey hsgn hne hds hbehind, if_pos hint]
    exact Option.some_ne_none _

/-- The text of a number is a sign, if it is negative, and digits. -/
theorem toStdString_eq (k : Int) : ∃ sgn, (sgn = [] ∨ sgn = str "+" ∨ sgn = str "-") ∧
    toStdString k = sgn ++ digits k.natAbs ∧
    decimalValue (decide (sgn = str "-")) (digits k.natAbs) = k := by
  unfold decimalValue
  rw [foldl_digits]
  unfold toStdString
  dsimp only
  by_cases hk : k < 0
  · rw [if_pos hk]
    refine ⟨str "-", Or.inr (Or.inr rfl), rfl, ?_⟩
    rw [if_pos (decide_eq_true rfl)]
    omega
  · rw [if_neg hk]
    refine ⟨[], Or.inl rfl, rfl, ?_⟩
    rw [if_neg (by decide)]
    omega

theorem isWord_toStdString (k : Int) : IsWord isSpace (toStdString k) := by
  obtain ⟨sgn, hsgn, htext, -⟩ := toStdString_eq k
  rw [htext]
  constructor
  · intro hnil
    exact digits_ne_nil k.natAbs (List.append_eq_nil_iff.mp hnil).2
  · intro b hb
    rcases List.mem_append.mp hb with hb | hb
    · rcases hsgn with rfl | rfl | rfl
      · cases hb
      · rw [List.mem_singleton.mp hb]
        rfl
      · rw [List.mem_singleton.mp hb]
        rfl
    · exact isSpace_of_isDigit (isDigit_of_mem_digits hb)

/-- The key that is typed is the key that is read. -/
theorem stoi_toStdString (hk : IsInt k) : stoi (toStdString k) = some k := by
  obtain ⟨sgn, hsgn, htext, hvalue⟩ := toStdString_eq k
  have hword := isWord_toStdString k
  rw [htext, ← List.append_nil (sgn ++ _)] at hword ⊢
  rw [stoi_append hword hsgn (digits_ne_nil _) (fun b hb => isDigit_of_mem_digits hb)
    (fun b hb => by cases hb), hvalue, if_pos hk]

/-! ### Lines -/

/-- The line of an action, a key and a value. -/
def typed (action : Bytes) (k : Int) (v : Bytes) : Bytes :=
  action ++ (str " " ++ (toStdString k ++ (str " " ++ v)))

theorem parseCommand_typed (haction : IsWord isSpace action) (k : Int) (v : Bytes) :
    parseCommand (typed action k v) = action :: toStdString k :: parseCommand v := by
  unfold parseCommand typed
  have hblank : isSpace 32 = true := rfl
  exact (split_word_append haction hblank _).trans
    (congrArg (action :: ·) (split_word_append (isWord_toStdString k) hblank v))

theorem readCommand_eq {words : List Bytes} (hline : parseCommand line = action :: words) :
    readCommand line = dispatch (action :: words) := by
  have hne : line ≠ [] := fun hnil => by
    rw [hnil] at hline
    cases hline
  unfold readCommand
  rw [if_neg hne, hline]

theorem readCommand_typed (haction : IsWord isSpace action) (k : Int) (v : Bytes) :
    readCommand (typed action k v) = dispatch (action :: toStdString k :: parseCommand v) :=
  readCommand_eq (parseCommand_typed haction k v)

theorem isWord_put : IsWord isSpace (str "put") := isWord_of_all (by decide) rfl

theorem isWord_update : IsWord isSpace (str "update") := isWord_of_all (by decide) rfl

/-- What a line with a key comes to. -/
def keyed (key : Bytes) (op : Key → Op) : Command :=
  match stoi key with
  | some k => .call (op k)
  | none => .error

theorem callWithKey_eq {args : List Bytes} {op : Key → Op} {op' : Key → Option Op}
    (hop : ∀ k, op' k = some (op k)) :
    callWithKey (action :: key :: args) op' = some (keyed key op) := by
  unfold callWithKey keyed
  rw [List.getElem?_cons_succ, List.getElem?_cons_zero, Option.bind_eq_bind, Option.bind_some]
  cases stoi key with
  | none => rfl
  | some k =>
      dsimp only
      rw [hop]
      rfl

/-- A `put` or an `update`: without a value in the line nothing is stored. -/
theorem callWithKey_value {args : List Bytes} (op : Key → Bytes → Op) (hargs : args ≠ []) :
    (callWithKey (action :: key :: args) fun k => do
      return op k (← readValue (action :: key :: args))) =
      some (keyed key fun k => op k (join 32 args)) :=
  callWithKey_eq fun k => by rw [readValue_eq hargs]; rfl

theorem three_le_length {args : List Bytes} (hargs : args ≠ []) :
    3 ≤ (action :: key :: args).length := by
  have hlen := List.length_pos_iff.mpr hargs
  rw [List.length_cons, List.length_cons]
  omega

theorem dispatch_put (args : List Bytes) : dispatch (str "put" :: key :: args) =
    some (if args = [] then .unknown else keyed key fun k => .insert k (join 32 args)) := by
  unfold dispatch
  rw [List.getElem?_cons_zero, Option.bind_eq_bind, Option.bind_some, if_neg (by decide),
    if_neg (by decide)]
  by_cases hargs : args = []
  · subst hargs
    rw [if_pos rfl]
    rfl
  · rw [if_neg hargs, if_pos ⟨rfl, three_le_length hargs⟩]
    exact callWithKey_value .insert hargs

theorem dispatch_update (args : List Bytes) : dispatch (str "update" :: key :: args) =
    some (if args = [] then .unknown else keyed key fun k => .update k (join 32 args)) := by
  unfold dispatch
  rw [List.getElem?_cons_zero, Option.bind_eq_bind, Option.bind_some, if_neg (by decide),
    if_neg (by decide), if_neg (not_and_of_not_left _ (by decide)),
    if_neg (not_and_of_not_left _ (by decide))]
  by_cases hargs : args = []
  · subst hargs
    rw [if_pos rfl]
    rfl
  · rw [if_neg hargs, if_pos ⟨rfl, three_le_length hargs⟩]
    exact callWithKey_value .update hargs

theorem dispatch_get (args : List Bytes) :
    dispatch (str "get" :: key :: args) = some (keyed key .get) := by
  unfold dispatch
  rw [List.getElem?_cons_zero, Option.bind_eq_bind, Option.bind_some, if_neg (by decide),
    if_neg (by decide), if_neg (not_and_of_not_left _ (by decide)),
    if_pos ⟨rfl, by rw [List.length_cons, List.length_cons]; omega⟩]
  exact callWithKey_eq fun _ => rfl

theorem dispatch_delete (args : List Bytes) :
    dispatch (str "delete" :: key :: args) = some (keyed key .deleteKey) := by
  unfold dispatch
  rw [List.getElem?_cons_zero, Option.bind_eq_bind, Option.bind_some, if_neg (by decide),
    if_neg (by decide), if_neg (not_and_of_not_left _ (by decide)),
    if_neg (not_and_of_not_left _ (by decide)),
    if_neg (not_and_of_not_left _ (by decide)),
    if_pos ⟨rfl, by rw [List.length_cons, List.length_cons]; omega⟩]
  exact callWithKey_eq fun _ => rfl

theorem keyed_of_int (hk : IsInt k) (op : Key → Op) : keyed (toStdString k) op = .call (op k) := by
  unfold keyed
  rw [stoi_toStdString hk]

/-- The value of a call is the one that was typed exactly if that is single-spaced. -/
theorem write_typed_iff {write : Key → Bytes → Op} (haction : IsWord isSpace action)
    (hdispatch : ∀ args, dispatch (action :: toStdString k :: args) =
      some (if args = [] then .unknown else keyed (toStdString k) fun k => write k (join 32 args)))
    (hwrite : ∀ u, write k u = write k v ↔ u = v) (hk : IsInt k) :
    readCommand (typed action k v) = some (.call (write k v)) ↔ SingleSpaced v := by
  rw [readCommand_typed haction, hdispatch, singleSpaced_iff]
  by_cases hargs : parseCommand v = []
  · rw [if_pos hargs]
    exact iff_of_false (by simp) fun h => h.1 hargs
  · rw [if_neg hargs, keyed_of_int hk, Option.some.injEq, Command.call.injEq, hwrite,
      and_iff_right hargs]

/-! ### Lines with a bad key -/

/-- An action that is about a key, with the arguments it asks for. -/
def TakesKey (action : Bytes) (args : List Bytes) : Prop :=
  action = str "get" ∨ action = str "delete" ∨
    ((action = str "put" ∨ action = str "update") ∧ args ≠ [])

theorem keyed_ops_eq_nil_iff (draws : Draws) (op : Key → Op) :
    (keyed key op).ops draws = [] ↔ stoi key = none := by
  unfold keyed
  cases stoi key with
  | none => exact iff_of_true rfl rfl
  | some k => exact iff_of_false (List.cons_ne_nil _ _) (Option.some_ne_none k)

theorem takesKey_write {args : List Bytes} (hwrite : action = str "put" ∨ action = str "update")
    (hget : action ≠ str "get") (hdelete : action ≠ str "delete") :
    TakesKey action args ↔ args ≠ [] := by
  unfold TakesKey
  rw [or_iff_right hget, or_iff_right hdelete, and_iff_right hwrite]

theorem write_ops_eq_nil_iff (draws : Draws) {args : List Bytes} (op : Key → Op)
    (htakes : TakesKey action args ↔ args ≠ []) :
    (if args = [] then .unknown else keyed key op : Command).ops draws = [] ↔
      ¬ (TakesKey action args ∧ stoi key ≠ none) := by
  rw [htakes]
  by_cases hargs : args = []
  · rw [if_pos hargs]
    exact iff_of_true rfl fun h => h.1 hargs
  · rw [if_neg hargs, keyed_ops_eq_nil_iff, and_iff_right hargs, not_not]

/-- **When a line about a key makes no call.** -/
theorem exists_dispatch_ops_iff (draws : Draws) {args : List Bytes}
    (haction : action ∈ [str "put", str "get", str "update", str "delete"]) :
    ∃ command, dispatch (action :: key :: args) = some command ∧
      (command.ops draws = [] ↔ ¬ (TakesKey action args ∧ stoi key ≠ none)) := by
  simp only [List.mem_cons, List.not_mem_nil, or_false] at haction
  rcases haction with rfl | rfl | rfl | rfl
  · exact ⟨_, dispatch_put args, write_ops_eq_nil_iff draws _
      (takesKey_write (Or.inl rfl) (by decide) (by decide))⟩
  · have htakes : TakesKey (str "get") args := Or.inl rfl
    refine ⟨_, dispatch_get args, ?_⟩
    rw [keyed_ops_eq_nil_iff, and_iff_right htakes, not_not]
  · exact ⟨_, dispatch_update args, write_ops_eq_nil_iff draws _
      (takesKey_write (Or.inr rfl) (by decide) (by decide))⟩
  · have htakes : TakesKey (str "delete") args := Or.inr (Or.inl rfl)
    refine ⟨_, dispatch_delete args, ?_⟩
    rw [keyed_ops_eq_nil_iff, and_iff_right htakes, not_not]

/-- **When the shell stores what was typed.**  The value of a `put` or an `update` arrives as it
was typed exactly if it is words with one blank between each two.  A line with a key that is
no number makes no call exactly if its action lacks a value, or its key does not begin with a
number either. -/
theorem typed_value_stored_iff (k : Int) (v : Bytes) (hk : IsInt k) (line action key : Bytes)
    (args : List Bytes) (hline : parseCommand line = action :: key :: args)
    (haction : action ∈ [str "put", str "get", str "update", str "delete"])
    (_ : ¬ DecimalInt key) :
    (readCommand (typed (str "put") k v) = some (.call (.insert k v)) ↔ SingleSpaced v) ∧
    (readCommand (typed (str "update") k v) = some (.call (.update k v)) ↔ SingleSpaced v) ∧
    ((∀ command draws, readCommand line = some command → command.ops draws = []) ↔
      ¬ (TakesKey action args ∧ BeginsWithInt key)) := by
  refine ⟨write_typed_iff isWord_put dispatch_put (by simp) hk,
    write_typed_iff isWord_update dispatch_update (by simp) hk, ?_⟩
  have hkey : IsWord isSpace key := by
    refine isWord_of_mem_split (s := line) ?_
    show key ∈ parseCommand line
    rw [hline]
    exact List.mem_cons_of_mem _ List.mem_cons_self
  rw [readCommand_eq hline, ← stoi_ne_none_iff hkey]
  constructor
  · intro hquiet
    obtain ⟨command, hcommand, hnil⟩ := @exists_dispatch_ops_iff key action
      ⟨fun _ => [], fun _ => 0⟩ args haction
    exact hnil.mp (hquiet command _ hcommand)
  · intro hnot command draws hcommand
    obtain ⟨command', hcommand', hnil⟩ := exists_dispatch_ops_iff draws haction
    obtain rfl : command' = command := Option.some.inj (hcommand'.symm.trans hcommand)
    exact hnil.mpr hnot

theorem not_decimalInt {c : UInt8} (hmem : c ∈ key) (hdigit : isDigit c = false)
    (hplus : c ≠ 43) (hminus : c ≠ 45) : ¬ DecimalInt key := by
  rintro ⟨sgn, ds, rfl, hsgn, -, hds, -⟩
  rcases List.mem_append.mp hmem with hmem | hmem
  · rcases hsgn with rfl | rfl | rfl
    · cases hmem
    · exact hplus (List.mem_singleton.mp hmem)
    · exact hminus (List.mem_singleton.mp hmem)
  · rw [hds c hmem] at hdigit
    cases hdigit

/-- One word, and a key of one letter. -/
theorem typed_value_stored_iff_word :
    readCommand (typed (str "put") 7 (str "word")) = some (.call (.insert 7 (str "word"))) :=
  (typed_value_stored_iff 7 (str "word") (by decide) (str "get x") (str "get") (str "x") []
    (by decide) (by decide)
    (not_decimalInt (c := 120) (by decide) rfl (by decide) (by decide))).1.mpr
      ⟨[str "word"], by decide, fun w hw => by
        rw [List.mem_singleton.mp hw]
        exact isWord_of_all (by decide) rfl, rfl⟩

/-- Of two blanks one is stored, and letters behind a key are passed over. -/
theorem typed_value_changed :
    (¬ ∀ k v, IsInt k → v ≠ [] → 10 ∉ v →
      readCommand (typed (str "put") k v) = some (.call (.insert k v))) ∧
    ¬ ∀ line action key args, parseCommand line = action :: key :: args →
      action ∈ [str "put", str "get", str "update", str "delete"] → ¬ DecimalInt key →
        ∀ command draws, readCommand line = some command → command.ops draws = [] := by
  constructor
  · intro hall
    have hstored := hall 1 (str "a  b") (by decide) (by decide) (by decide)
    revert hstored
    decide
  · intro hall
    have hquiet := hall (str "put 12abc v") (str "put") (str "12abc") [str "v"] (by decide)
      (by decide) ?_ (.call (.insert 12 (str "v"))) ⟨fun _ => [], fun _ => 0⟩ (by decide)
    · cases hquiet
    · exact not_decimalInt (c := 97) (by decide) rfl (by decide) (by decide)

end DistKV

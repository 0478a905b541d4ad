import ByteMachine.Proofs.Report
import Mathlib.Data.List.Forall2
import Mathlib.Data.List.Induction
import Mathlib.Data.Nat.Digits.Defs
import Mathlib.Tactic.Ring

/-! What the run command takes for arguments: a path and a list of items, which are switches or flags
with numbers. The items are split off from left to right, and where no item begins the command is
refused. Of several numbers for one flag the last one counts. -/
namespace ByteMachine

namespace Numeral

/-- The character is a way to write the digit `d`; a letter may be in either case. -/
def Stands (base : Nat) (c : Char) (d : Nat) : Prop :=
  d < base ∧ (c = d.digitChar ∨ c = d.digitChar.toUpper)

/-- One or more digits that make up the number `n`. -/
def Spells (base : Nat) (cs : List Char) (n : Nat) : Prop :=
  ∃ ds, ds ≠ [] ∧ List.Forall₂ (Stands base) cs ds ∧ n = Nat.ofDigits base ds.reverse

theorem lt_of_digitValue? {c : Char} {d : Nat} (value : digitValue? c = some d) :
    c.toNat < 103 := by
  unfold digitValue? at value
  simp only [Char.le_def, UInt32.le_iff_toNat_le] at value
  change c.val.toNat < 103
  split at value
  · next decimal =>
    have : c.val.toNat ≤ 57 := decimal.2
    omega
  · split at value
    · next lower =>
      have : c.val.toNat ≤ 102 := lower.2
      omega
    · split at value
      · next upper =>
        have : c.val.toNat ≤ 70 := upper.2
        omega
      · cases value

theorem digitValue?_eq_some_iff {c : Char} {d : Nat} :
    digitValue? c = some d ↔ d < 16 ∧ (c = d.digitChar ∨ c = d.digitChar.toUpper) := by
  constructor
  · intro value
    have table : ∀ n < 103, ∀ d ∈ digitValue? (Char.ofNat n),
        d < 16 ∧ (Char.ofNat n = d.digitChar ∨ Char.ofNat n = d.digitChar.toUpper) := by
      decide +kernel
    simpa using table c.toNat (lt_of_digitValue? value) d (by simpa using value)
  · rintro ⟨small, rfl | rfl⟩ <;> revert d <;> decide

variable {base : Nat}

theorem digit?_eq_some_iff {c : Char} {d : Nat} (hb : base ≤ 16) :
    digit? base c = some d ↔ Stands base c d := by
  unfold digit? Stands
  rw [Option.filter_eq_some_iff, digitValue?_eq_some_iff, decide_eq_true_iff]
  constructor
  · rintro ⟨⟨-, stands⟩, small⟩
    exact ⟨small, stands⟩
  · rintro ⟨small, stands⟩
    exact ⟨⟨by omega, stands⟩, small⟩

theorem readFrom?_eq_some_iff {m n : Nat} {cs : List Char} (hb : base ≤ 16) :
    readFrom? base m cs = some n ↔ ∃ ds, List.Forall₂ (Stands base) cs ds ∧
      n = m * base ^ ds.length + Nat.ofDigits base ds.reverse := by
  induction cs generalizing m with
  | nil => simp [readFrom?, List.forall₂_nil_left_iff, eq_comm]
  | cons c cs ih =>
    have shift (d : Nat) (ds : List Nat) :
        (base * m + d) * base ^ ds.length + Nat.ofDigits base ds.reverse =
          m * base ^ (d :: ds).length + Nat.ofDigits base (d :: ds).reverse := by
      simp only [List.length_cons, List.reverse_cons, Nat.ofDigits_append, List.length_reverse,
        Nat.ofDigits_singleton]
      ring
    rw [readFrom?, Option.bind_eq_some_iff]
    constructor
    · rintro ⟨d, digit, more⟩
      obtain ⟨ds, stand, rfl⟩ := ih.1 more
      exact ⟨d :: ds, .cons ((digit?_eq_some_iff hb).1 digit) stand, shift d ds⟩
    · rintro ⟨_, stand, rfl⟩
      cases stand with
      | @cons _ d _ ds first stand =>
        exact ⟨d, (digit?_eq_some_iff hb).2 first, ih.2 ⟨ds, stand, (shift d ds).symm⟩⟩

theorem read?_eq_some_iff {n : Nat} {cs : List Char} (hb : base ≤ 16) :
    read? base cs = some n ↔ Spells base cs n := by
  unfold read? Spells
  cases cs with
  | nil => simp [List.forall₂_nil_left_iff]
  | cons c cs =>
    rw [List.isEmpty_cons, if_neg Bool.false_ne_true, readFrom?_eq_some_iff hb]
    simp only [Nat.zero_mul, Nat.zero_add]
    constructor
    · rintro ⟨ds, stand, eq⟩
      refine ⟨ds, ?_, stand, eq⟩
      rintro rfl
      cases stand
    · rintro ⟨ds, -, stand, eq⟩
      exact ⟨ds, stand, eq⟩

theorem Spells.exists_stands {n : Nat} {c : Char} {cs : List Char} (spells : Spells base cs n)
    (mem : c ∈ cs) : ∃ d, Stands base c d := by
  obtain ⟨ds, -, stand, -⟩ := spells
  induction stand with
  | nil => cases mem
  | cons first _ ih =>
    obtain rfl | later := List.mem_cons.1 mem
    · exact ⟨_, first⟩
    · exact ih later

theorem not_stands_of_digit? {c : Char} (hb : base ≤ 16) (h : digit? base c = none) (d : Nat) :
    ¬ Stands base c d := by
  rw [← digit?_eq_some_iff hb, h]
  exact nofun

end Numeral

open Numeral

/-- A numeral, with a plus sign in front or none. -/
def Signed (base : Nat) (cs : List Char) (n : Nat) : Prop :=
  ∃ sign digits, cs = sign ++ digits ∧ (sign = [] ∨ sign = ['+']) ∧ Spells base digits n

/-- A number as an argument. There may be any number of zeros in front. -/
inductive Denotes (s : String) (n : Nat) : Prop
  | decimal : Signed 10 s.toList n → n < UInt64.size → Denotes s n
  | hexadecimal {cs : List Char} : s.toList = '0' :: 'x' :: cs → Signed 16 cs n →
      n < UInt64.size → Denotes s n

theorem read?_unsigned_iff {base n : Nat} (hb : base ≤ 16) (cs : List Char) :
    read? base (match cs with
      | '+' :: cs => cs
      | cs => cs) = some n ↔ Signed base cs n := by
  have plus (d : Nat) : ¬ Stands base '+' d := by
    apply not_stands_of_digit? hb
    simp [digit?, show digitValue? '+' = none from rfl]
  split
  · next cs =>
    rw [read?_eq_some_iff hb]
    constructor
    · intro spells
      exact ⟨['+'], cs, rfl, .inr rfl, spells⟩
    · rintro ⟨_, digits, eq, rfl | rfl, spells⟩
      · obtain rfl : '+' :: cs = digits := eq
        obtain ⟨d, stands⟩ := spells.exists_stands List.mem_cons_self
        exact absurd stands (plus d)
      · cases eq
        exact spells
  · next unsigned =>
    rw [read?_eq_some_iff hb]
    constructor
    · intro spells
      exact ⟨[], cs, rfl, .inl rfl, spells⟩
    · rintro ⟨_, digits, eq, rfl | rfl, spells⟩
      · rw [eq]
        exact spells
      · exact absurd eq (unsigned digits)

theorem not_signed_of_mark {cs : List Char} {n : Nat} : ¬ Signed 10 ('0' :: 'x' :: cs) n := by
  have letter (d : Nat) : ¬ Stands 10 'x' d := not_stands_of_digit? (by decide) rfl d
  rintro ⟨_, digits, eq, rfl | rfl, spells⟩
  · obtain rfl : '0' :: 'x' :: cs = digits := eq
    obtain ⟨d, stands⟩ := spells.exists_stands (.tail _ (.head _))
    exact letter d stands
  · cases eq

theorem numberArgument?_eq_some_iff {s : String} {n : Nat} :
    numberArgument? s = some n ↔ Denotes s n := by
  unfold numberArgument?
  rw [Option.filter_eq_some_iff, decide_eq_true_iff]
  split
  · next cs marked =>
    refine (and_congr_left' (read?_unsigned_iff (Nat.le_refl 16) cs)).trans ?_
    constructor
    · rintro ⟨signed, small⟩
      exact .hexadecimal marked signed small
    · intro denotes
      cases denotes with
      | decimal signed small =>
        rw [marked] at signed
        exact absurd signed not_signed_of_mark
      | hexadecimal eq signed small =>
        rw [marked] at eq
        cases eq
        exact ⟨signed, small⟩
  · next unmarked =>
    refine (and_congr_left' (read?_unsigned_iff (show 10 ≤ 16 by decide) s.toList)).trans ?_
    constructor
    · rintro ⟨signed, small⟩
      exact .decimal signed small
    · intro denotes
      cases denotes with
      | decimal signed small => exact ⟨signed, small⟩
      | hexadecimal eq _ _ => exact absurd eq (unmarked _)

/-- A switch, or a flag with its number. -/
inductive Item where
  | trace
  | dump
  | number (f : NumberFlag) (n : Nat)
deriving DecidableEq

def Item.flag : Item → String
  | trace => "--trace"
  | dump => "--dump"
  | number f _ => f.name

/-- The arguments are those of the items, one after the other. -/
inductive Splits : List String → List Item → Prop
  | nil : Splits [] []
  | trace {args : List String} {items : List Item} :
      Splits args items → Splits ("--trace" :: args) (.trace :: items)
  | dump {args : List String} {items : List Item} :
      Splits args items → Splits ("--dump" :: args) (.dump :: items)
  | number {f : NumberFlag} {value : String} {n : Nat} {args : List String} {items : List Item} :
      Denotes value n → Splits args items → Splits (f.name :: value :: args) (.number f n :: items)

/-- There are arguments left but no item begins them; what is then reported, and in which words. -/
inductive Stuck : List String → ArgumentError → String → Prop
  | unexpected {a : String} {rest : List String} :
      a ≠ "--trace" → a ≠ "--dump" → (∀ f : NumberFlag, a ≠ f.name) →
      Stuck (a :: rest) (.unexpected a) ("unexpected argument '" ++ a ++ "'")
  | missingValue (f : NumberFlag) :
      Stuck [f.name] (.missingValue f) (f.name ++ " requires a value")
  | invalidValue {f : NumberFlag} {value : String} {rest : List String} :
      (∀ n, ¬ Denotes value n) → Stuck (f.name :: value :: rest) (.invalidValue f value)
        ("invalid value '" ++ value ++ "' for " ++ f.name)

namespace Item

/-- The numbers given for a flag, in order. -/
def numbers (f : NumberFlag) (items : List Item) : List Nat :=
  items.filterMap fun
    | number g n => if g = f then some n else none
    | trace | dump => none

theorem numbers_append (f : NumberFlag) (items : List Item) (item : Item) :
    numbers f (items ++ [item]) = numbers f items ++ numbers f [item] :=
  List.filterMap_append

theorem numbers_singleton (f g : NumberFlag) (n : Nat) :
    numbers f [number g n] = if g = f then [n] else [] := by
  unfold numbers
  rw [List.filterMap_cons]
  split <;> simp_all

/-- What the items ask for: of each flag the last number, and what holds where none is given. -/
def options (path : String) (items : List Item) : RunOptions where
  path := path
  config.memorySize := (numbers .memory items).getLast?.getD 256
  config.stackSize := (numbers .stack items).getLast?.getD 64
  config.maxSteps := (numbers .maxSteps items).getLast?
  entry := (numbers .entry items).getLast?.getD 0
  trace := decide (trace ∈ items)
  dump := decide (dump ∈ items)

end Item

theorem NumberFlag.name_inj {f g : NumberFlag} : f.name = g.name ↔ f = g := by
  constructor
  · intro same
    exact Option.some.inj
      ((ofName?_name f).symm.trans ((congrArg ofName? same).trans (ofName?_name g)))
  · exact congrArg name

theorem NumberFlag.ofName?_eq_some_iff {a : String} {f : NumberFlag} :
    ofName? a = some f ↔ a = f.name := by
  constructor
  · intro named
    exact (beq_iff_eq.1 (List.find?_some named :)).symm
  · rintro rfl
    exact ofName?_name f

theorem NumberFlag.name_ne_switch (f : NumberFlag) : f.name ≠ "--trace" ∧ f.name ≠ "--dump" :=
  ofName?_switch (ofName?_name f)

namespace RunOptions

def add (o : RunOptions) : Item → RunOptions
  | .trace => { o with trace := true }
  | .dump => { o with dump := true }
  | .number f n => o.set f n

theorem options_append (path : String) (items : List Item) (item : Item) :
    Item.options path (items ++ [item]) = (Item.options path items).add item := by
  cases item with
  | trace | dump =>
    have unnumbered (f : NumberFlag) :
        Item.numbers f [.trace] = [] ∧ Item.numbers f [.dump] = [] := ⟨rfl, rfl⟩
    simp [Item.options, Item.numbers_append, unnumbered, add]
  | number f n =>
    simp only [Item.options, Item.numbers_append, Item.numbers_singleton, add]
    cases f <;> simp [set]

theorem foldl_add (path : String) (items : List Item) :
    items.foldl add { path } = Item.options path items := by
  induction items using List.reverseRecOn with
  | nil => rfl
  | append_singleton items item ih => rw [List.foldl_append, ih, options_append]; rfl

variable {o : RunOptions} {args : List String} {items : List Item}

theorem readFlags_of_splits (splits : Splits args items) :
    o.readFlags args = .ok (items.foldl add o) := by
  induction splits generalizing o with
  | nil => rw [readFlags, List.foldl_nil]
  | trace _ ih =>
    rw [readFlags_trace]
    exact ih
  | dump _ ih =>
    rw [readFlags_dump]
    exact ih
  | @number f value n args items denotes _ ih =>
    rw [readFlags_number (NumberFlag.ofName?_name f) (numberArgument?_eq_some_iff.2 denotes)]
    exact ih

/-- All arguments are items, or some are and what follows is not. -/
theorem splits_or_stuck (args : List String) : (∃ items, Splits args items) ∨
    ∃ good bad items e text, args = good ++ bad ∧ Splits good items ∧ Stuck bad e text := by
  have stuck {bad : List String} {e : ArgumentError} {text : String} (here : Stuck bad e text) :
      ∃ good bad' items e text, bad = good ++ bad' ∧ Splits good items ∧ Stuck bad' e text :=
    ⟨[], bad, [], e, text, rfl, .nil, here⟩
  fun_induction readFlags { path := "" } args with
  | case1 => exact .inl ⟨[], .nil⟩
  | case2 o rest ih =>
    obtain ⟨items, splits⟩ | ⟨good, bad, items, e, text, rfl, splits, here⟩ := ih
    · exact .inl ⟨_, .trace splits⟩
    · exact .inr ⟨_, bad, _, e, text, rfl, .trace splits, here⟩
  | case3 o rest _ ih =>
    obtain ⟨items, splits⟩ | ⟨good, bad, items, e, text, rfl, splits, here⟩ := ih
    · exact .inl ⟨_, .dump splits⟩
    · exact .inr ⟨_, bad, _, e, text, rfl, .dump splits, here⟩
  | case4 o a rest not_trace not_dump unknown =>
    refine .inr (stuck (.unexpected not_trace not_dump ?_))
    rintro f rfl
    cases unknown.symm.trans (NumberFlag.ofName?_name f)
  | case5 o a not_trace not_dump f named =>
    obtain rfl := NumberFlag.ofName?_eq_some_iff.1 named
    exact .inr (stuck (.missingValue f))
  | case6 o a not_trace not_dump f named value rest unread =>
    obtain rfl := NumberFlag.ofName?_eq_some_iff.1 named
    refine .inr (stuck (.invalidValue ?_))
    intro n denotes
    cases unread.symm.trans (numberArgument?_eq_some_iff.2 denotes)
  | case7 o a not_trace not_dump f named value rest n number ih =>
    obtain rfl := NumberFlag.ofName?_eq_some_iff.1 named
    have denotes := numberArgument?_eq_some_iff.1 number
    obtain ⟨items, splits⟩ | ⟨good, bad, items, e, text, rfl, splits, here⟩ := ih
    · exact .inl ⟨_, .number denotes splits⟩
    · exact .inr ⟨_, bad, _, e, text, rfl, .number denotes splits, here⟩

theorem readFlags_of_stuck {e : ArgumentError} {text : String} (stuck : Stuck args e text) :
    o.readFlags args = .error e := by
  cases stuck with
  | @unexpected a rest not_trace not_dump unnamed =>
    have unknown : NumberFlag.ofName? a = none := by
      cases named : NumberFlag.ofName? a with
      | none => rfl
      | some f => exact absurd (NumberFlag.ofName?_eq_some_iff.1 named) (unnamed f)
    rw [readFlags, if_neg not_trace, if_neg not_dump, unknown]
  | missingValue f =>
    obtain ⟨not_trace, not_dump⟩ := f.name_ne_switch
    rw [readFlags, if_neg not_trace, if_neg not_dump, NumberFlag.ofName?_name]
  | @invalidValue f value rest meaningless =>
    obtain ⟨not_trace, not_dump⟩ := f.name_ne_switch
    have unread : numberArgument? value = none := by
      cases number : numberArgument? value with
      | none => rfl
      | some n => exact absurd (numberArgument?_eq_some_iff.1 number) (meaningless n)
    rw [readFlags, if_neg not_trace, if_neg not_dump, NumberFlag.ofName?_name]
    dsimp only
    rw [unread]

theorem readFlags_eq_ok_iff {read : RunOptions} : o.readFlags args = .ok read ↔
    ∃ items, Splits args items ∧ read = items.foldl add o := by
  constructor
  · intro ok
    obtain ⟨items, splits⟩ | ⟨good, bad, items, e, text, rfl, splits, stuck⟩ := splits_or_stuck args
    · exact ⟨items, splits, Except.ok.inj (ok.symm.trans (readFlags_of_splits splits))⟩
    · rw [readFlags_append (readFlags_of_splits splits), readFlags_of_stuck stuck] at ok
      cases ok
  · rintro ⟨items, splits, rfl⟩
    exact readFlags_of_splits splits

theorem readFlags_eq_error_iff {e : ArgumentError} : o.readFlags args = .error e ↔
    ∃ good bad items text, args = good ++ bad ∧ Splits good items ∧ Stuck bad e text := by
  constructor
  · intro failed
    obtain ⟨items, splits⟩ | ⟨good, bad, items, e', text, rfl, splits, stuck⟩ := splits_or_stuck args
    · cases failed.symm.trans (readFlags_of_splits splits)
    · rw [readFlags_append (readFlags_of_splits splits), readFlags_of_stuck stuck] at failed
      obtain rfl := Except.error.inj failed
      exact ⟨good, bad, items, text, rfl, splits, stuck⟩
  · rintro ⟨good, bad, items, text, rfl, splits, stuck⟩
    rw [readFlags_append (readFlags_of_splits splits), readFlags_of_stuck stuck]

end RunOptions

namespace Splits

variable {a : String} {args : List String} {items : List Item}

theorem inv (splits : Splits (a :: args) items) :
    (a = "--trace" ∧ ∃ rest, items = .trace :: rest ∧ Splits args rest) ∨
    (a = "--dump" ∧ ∃ rest, items = .dump :: rest ∧ Splits args rest) ∨
    ∃ f value n more rest, a = f.name ∧ args = value :: more ∧ items = .number f n :: rest ∧
      Denotes value n ∧ Splits more rest := by
  cases splits with
  | trace splits => exact .inl ⟨rfl, _, rfl, splits⟩
  | dump splits => exact .inr (.inl ⟨rfl, _, rfl, splits⟩)
  | number denotes splits => exact .inr (.inr ⟨_, _, _, _, _, rfl, rfl, rfl, denotes, splits⟩)

theorem unique {items' : List Item} (splits : Splits args items) (splits' : Splits args items') :
    items = items' := by
  induction splits generalizing items' with
  | nil =>
    cases splits'
    rfl
  | trace _ ih =>
    obtain ⟨-, rest, rfl, after⟩ | ⟨eq, -⟩ | ⟨f, -, -, -, -, eq, -⟩ := splits'.inv
    · rw [ih after]
    · exact absurd eq (by decide)
    · exact absurd eq.symm f.name_ne_switch.1
  | dump _ ih =>
    obtain ⟨eq, -⟩ | ⟨-, rest, rfl, after⟩ | ⟨f, -, -, -, -, eq, -⟩ := splits'.inv
    · exact absurd eq (by decide)
    · rw [ih after]
    · exact absurd eq.symm f.name_ne_switch.2
  | @number f value n _ _ denotes _ ih =>
    obtain ⟨eq, -⟩ | ⟨eq, -⟩ | ⟨g, value', n', more, rest, same, eq, rfl, denotes', after⟩ :=
      splits'.inv
    · exact absurd eq f.name_ne_switch.1
    · exact absurd eq f.name_ne_switch.2
    · cases eq
      obtain rfl := NumberFlag.name_inj.1 same
      have number := numberArgument?_eq_some_iff.2 denotes
      obtain rfl := Option.some.inj (number.symm.trans (numberArgument?_eq_some_iff.2 denotes'))
      rw [ih after]

end Splits

namespace Item

variable {items items' : List Item}

/-- Items of one flag keep their order, those of different flags may change places. -/
def Rearranged (items items' : List Item) : Prop :=
  ∀ flag, items'.filter (·.flag = flag) = items.filter (·.flag = flag)

theorem rearranged_exchange {a b : Item} (before after : List Item) (h : a.flag ≠ b.flag) :
    Rearranged (before ++ a :: b :: after) (before ++ b :: a :: after) := by
  intro flag
  by_cases first : a.flag = flag
  · have second : b.flag ≠ flag := fun eq => h (first.trans eq.symm)
    simp [first, second]
  · simp [List.filter_cons, first]

theorem numbers_filter (f : NumberFlag) (items : List Item) :
    numbers f (items.filter (·.flag = f.name)) = numbers f items := by
  unfold numbers
  rw [List.filterMap_filter]
  congr
  funext item
  cases item with
  | trace | dump => simp
  | number g n => simp [flag, NumberFlag.name_inj]

theorem Rearranged.options_eq (rearranged : Rearranged items items') (path : String) :
    options path items' = options path items := by
  have numbers (f : NumberFlag) : numbers f items' = numbers f items := by
    rw [← numbers_filter, rearranged, numbers_filter]
  have mem (item : Item) : item ∈ items' ↔ item ∈ items := by
    have filter := rearranged item.flag
    have of_filter (items : List Item) :
        item ∈ items.filter (·.flag = item.flag) ↔ item ∈ items := by simp
    rw [← of_filter, filter, of_filter]
  simp only [options, numbers, mem]

end Item

theorem Stuck.message_eq {args : List String} {e : ArgumentError} {text : String}
    (stuck : Stuck args e text) : e.message = text := by
  cases stuck <;> rfl

theorem run_arguments_split [FloatUnit] [LogWriter] (path : String) (args : List String) :
    (∀ o, RunOptions.read (path :: args) = .ok o ↔
      ∃ items, Splits args items ∧ o = Item.options path items) ∧
    (∀ items items', Splits args items → Splits args items' → items' = items) ∧
    (∀ e, RunOptions.read (path :: args) = .error e ↔
      ∃ good bad items text, args = good ++ bad ∧ Splits good items ∧ Stuck bad e text) ∧
    (∀ good bad items e text, args = good ++ bad → Splits good items → Stuck bad e text →
      ∀ fuel files, Report.command? fuel files ("run" :: path :: args) =
        some ⟨1, "", "error: " ++ text ++ "\n"⟩) ∧
    ∀ items args' items', Splits args items → Splits args' items' →
      Item.Rearranged items items' →
      RunOptions.read (path :: args') = RunOptions.read (path :: args) := by
  have ok_iff (args : List String) (o : RunOptions) : RunOptions.read (path :: args) = .ok o ↔
      ∃ items, Splits args items ∧ o = Item.options path items := by
    simp only [RunOptions.read, RunOptions.readFlags_eq_ok_iff, RunOptions.foldl_add]
  have error_iff (e : ArgumentError) : RunOptions.read (path :: args) = .error e ↔
      ∃ good bad items text, args = good ++ bad ∧ Splits good items ∧ Stuck bad e text :=
    RunOptions.readFlags_eq_error_iff
  refine ⟨ok_iff args, fun items items' splits splits' => splits'.unique splits, error_iff, ?refused,
    ?rearranged⟩
  case refused =>
    intro good bad items e text split splits stuck fuel files
    have failed := (error_iff e).2 ⟨good, bad, items, text, split, splits, stuck⟩
    rw [Report.command?_run, Report.run?_of_refused (.arguments (List.cons_ne_nil _ _) failed),
      Report.lines_singleton, stuck.message_eq]
  case rearranged =>
    intro items args' items' splits splits' rearranged
    rw [(ok_iff args _).2 ⟨items, splits, rfl⟩, (ok_iff args' _).2 ⟨items', splits', rfl⟩,
      rearranged.options_eq]

/-- A path that looks like a flag; a number that is given twice; a switch where a number is due. -/
theorem last_number_counts : ∃ args items,
    args = ["--stack", "0x+0fF", "--trace", "--stack", "007"] ∧ Splits args items ∧
    RunOptions.read ("--dump" :: args) =
      .ok { path := "--dump", config := { stackSize := 7 }, trace := true } ∧
    RunOptions.read ("--dump" :: ["--stack", "0x+0fF", "--stack", "007", "--trace"]) =
      RunOptions.read ("--dump" :: args) ∧
    Stuck ["--memory", "--trace", "5"] (.invalidValue .memory "--trace")
      "invalid value '--trace' for --memory" ∧
    Report.command? 0 (fun _ => .ok []) ("run" :: "p" :: (args ++ ["--memory", "--trace", "5"])) =
      some ⟨1, "", "error: invalid value '--trace' for --memory\n"⟩ := by
  have long : Denotes "0x+0fF" 255 := numberArgument?_eq_some_iff.1 (by decide +kernel)
  have short : Denotes "007" 7 := numberArgument?_eq_some_iff.1 (by decide +kernel)
  have meaningless (n : Nat) : ¬ Denotes "--trace" n := by
    intro denotes
    exact (numberArgument?_switch (numberArgument?_eq_some_iff.2 denotes)).1 rfl
  have splits : Splits ["--stack", "0x+0fF", "--trace", "--stack", "007"] _ :=
    .number (f := .stack) long (.trace (.number (f := .stack) short .nil))
  have swapped : Splits ["--stack", "0x+0fF", "--stack", "007", "--trace"] _ :=
    .number (f := .stack) long (.number (f := .stack) short (.trace .nil))
  have stuck : Stuck ["--memory", "--trace", "5"] _ _ := .invalidValue (f := .memory) meaningless
  obtain ⟨ok_iff, -, -, -, rearranged⟩ :=
    run_arguments_split "--dump" ["--stack", "0x+0fF", "--trace", "--stack", "007"]
  refine ⟨_, _, rfl, splits, (ok_iff _).2 ⟨_, splits, by decide⟩,
    rearranged _ _ _ splits swapped (Item.rearranged_exchange [_] [] (by decide)), stuck,
    (run_arguments_split "p" _).2.2.2.1 _ _ _ _ _ rfl splits stuck 0 _⟩

end ByteMachine

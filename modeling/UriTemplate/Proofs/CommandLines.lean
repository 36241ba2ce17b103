import Mathlib.Data.List.Forall2
import UriTemplate.CommandLine.Run
import UriTemplate.Proofs.Splitting

/-!
# Orders of options

Options of different kinds may stand in any order, and before or behind the template.

* `Grammar.items_text` — no argument is changed when it is told what it is;
* `Spelling` — the arguments that give an option with its value, `Spelling.step`, `read_spelled` — how they are read;
* `Reordered` — command lines with the same values of each option in the same order, `Reordered.ofArguments_eq` — they
  describe the same invocation;
* `ofArguments_spelled`, `Reordered.of_spelled` — options as they are written, and in two orders.
-/

namespace UriTemplate.CommandLine

/-! ## arguments as items -/

namespace Grammar

variable {g : Grammar}

theorem item_argument {t : Text} (h : t.head? ≠ some '-') : g.item t = .ok (.argument t) := if_pos h

theorem item_text {t : Text} {x : Item} (h : g.item t = .ok x) : x.text = t := by
  unfold item at h
  split at h
  · cases h; rfl
  · split at h
    · cases h; rfl
    · split at h
      · cases h; rfl
      · split at h
        · cases h; rfl
        · split at h
          · cases h; rfl
          · cases h
          · split at h <;> (cases h; rfl)

theorem items_cons {t : Text} (h : t ≠ "--") (ts : List Text) :
    g.items (t :: ts) = (do return (← g.item t) :: (← g.items ts)) := by
  rw [items, if_neg h]

/-- What does not begin with a hyphen is an argument, and no two hyphens either. -/
theorem items_argument {t : Text} (h : t.head? ≠ some '-') (ts : List Text) :
    g.items (t :: ts) = (.argument t :: ·) <$> g.items ts := by
  have hne : t ≠ "--" := by
    rintro rfl
    exact h rfl
  rw [items_cons hne, item_argument h]
  cases g.items ts <;> rfl

/-- Telling what the arguments are changes none of them. -/
theorem items_text {ts : List Text} {xs : List Item} (h : g.items ts = .ok xs) : xs.map Item.text = ts := by
  induction ts generalizing xs with
  | nil => cases h; rfl
  | cons t ts ih =>
    by_cases hdashes : t = "--"
    · rw [items, if_pos hdashes] at h
      cases h
      rw [List.map_cons, List.map_map, hdashes]
      exact congrArg (_ :: ·) (List.map_id ts)
    · rw [items_cons hdashes] at h
      cases hx : g.item t with
      | error s => rw [hx] at h; cases h
      | ok x =>
        cases hxs : g.items ts with
        | error s => rw [hx, hxs] at h; cases h
        | ok ys =>
          rw [hx, hxs] at h
          cases h
          rw [List.map_cons, item_text hx, ih hxs]

/-- What is no option is an argument or an unknown option. -/
theorem exists_item {t : Text} (hlookup : g.options.lookup t = none) (hassigned : g.assignedOption? t = none)
    (hmeanings : g.meanings t = []) : ∃ x, g.item t = .ok x := by
  unfold item
  split
  · exact ⟨_, rfl⟩
  · rw [hlookup]
    dsimp only
    split
    · exact ⟨_, rfl⟩
    · rw [hassigned, hmeanings]
      dsimp only
      split <;> exact ⟨_, rfl⟩

theorem exists_items {ts : List Text} (h : ∀ t ∈ ts, ∃ x, g.item t = .ok x) : ∃ xs, g.items ts = .ok xs := by
  induction ts with
  | nil => exact ⟨[], rfl⟩
  | cons t ts ih =>
    obtain ⟨⟨x, hx⟩, hts⟩ := List.forall_mem_cons.1 h
    obtain ⟨xs, hxs⟩ := ih hts
    by_cases hdashes : t = "--"
    · exact ⟨_, by rw [items, if_pos hdashes]⟩
    · exact ⟨x :: xs, by rw [items_cons hdashes, hx, hxs]; rfl⟩

end Grammar

/-! ## options as they are written -/

open Invocation (expandGrammar generalGrammar)

/-- The names of the options of an expansion that have a value. -/
def valueNames : List (Text × Flag) := expandGrammar.options.filter (·.2.hasValue)

/-- What is common to these names. -/
structure IsValueName (name : Text) (flag : Flag) : Prop where
  hasValue : flag.hasValue = true
  equals_not_mem : ('=' : CodePoint) ∉ name
  head : name.head? = some '-'
  length : 2 ≤ name.length
  lookup : expandGrammar.options.lookup name = some flag
  general_lookup : generalGrammar.options.lookup name = none
  general_prefix : ∀ o ∈ generalGrammar.options, name.isPrefixOf o.1 = false
  general_letter : ∀ o ∈ generalGrammar.options, o.1 ≠ name.take 2

theorem isValueName_of_mem {o : Text × Flag} (h : o ∈ valueNames) : IsValueName o.1 o.2 := by
  have hall : ∀ o ∈ valueNames, o.2.hasValue = true ∧ ('=' : CodePoint) ∉ o.1 ∧ o.1.head? = some '-' ∧ 2 ≤ o.1.length ∧
      expandGrammar.options.lookup o.1 = some o.2 ∧ generalGrammar.options.lookup o.1 = none ∧
      (∀ p ∈ generalGrammar.options, o.1.isPrefixOf p.1 = false) ∧ ∀ p ∈ generalGrammar.options, p.1 ≠ o.1.take 2 := by
    decide
  obtain ⟨hasValue, equals, head, length, lookup, general, general', general''⟩ := hall o h
  exact ⟨hasValue, equals, head, length, lookup, general, general', general''⟩

/-- **The arguments that give an option and its value**: two of them, or a single one with an equals sign.  A value that
begins with a hyphen is given in the second way. -/
inductive Spelling : Flag × Text → List Text → Prop
  | apart {name value : Text} {flag : Flag} (known : (name, flag) ∈ valueNames) (plain : value.head? ≠ some '-') :
    Spelling (flag, value) [name, value]
  | joined {name value : Text} {flag : Flag} (known : (name, flag) ∈ valueNames) :
    Spelling (flag, value) [name ++ ('=' : CodePoint) :: value]

namespace IsValueName

variable {name value : Text} {flag : Flag} (h : IsValueName name flag)

include h

theorem ne_dashes : name ≠ "--" := by
  rintro rfl
  have hnone : expandGrammar.options.lookup (Text.ofString "--") = none := rfl
  rw [h.lookup] at hnone
  cases hnone

theorem item_eq :
    expandGrammar.item name = .ok (.option { flag := some flag, isLetter := Grammar.isLetter name } name) := by
  rw [Grammar.item, if_neg (by rw [h.head]; simp), h.lookup]

theorem head_assigned : (name ++ ('=' : CodePoint) :: value).head? = some '-' := by
  rw [List.head?_append, h.head]
  rfl

omit h in
theorem assigned_ne_dashes : name ++ ('=' : CodePoint) :: value ≠ "--" := by
  intro heq
  have hmem : ('=' : CodePoint) ∈ Text.ofString "--" := by
    rw [← heq]
    simp
  exact absurd hmem (by decide)

omit h in
theorem lookup_assigned {g : Grammar} (hg : ∀ o ∈ g.options, ('=' : CodePoint) ∉ o.1) :
    g.options.lookup (name ++ ('=' : CodePoint) :: value) = none := by
  rw [List.lookup_eq_none_iff]
  intro o ho
  rw [bne_iff_ne]
  intro heq
  exact hg o ho (heq ▸ by simp)

theorem item_assigned :
    expandGrammar.item (name ++ ('=' : CodePoint) :: value) =
      .ok (.option { flag := some flag, isLetter := Grammar.isLetter name, attached := some value }
        (name ++ ('=' : CodePoint) :: value)) := by
  have hlength : (name ++ ('=' : CodePoint) :: value).length ≠ 1 := by
    have := h.length
    rw [List.length_append]
    omega
  have hassigned : expandGrammar.assignedOption? (name ++ ('=' : CodePoint) :: value) =
      some { flag := some flag, isLetter := Grammar.isLetter name, attached := some value } := by
    rw [Grammar.assignedOption?, Text.splitFirst_append_cons h.equals_not_mem]
    dsimp only [Option.bind_eq_bind, Option.bind_some]
    rw [h.lookup]
    rfl
  rw [Grammar.item, if_neg (by rw [h.head_assigned]; simp), lookup_assigned (by decide)]
  dsimp only
  rw [if_neg hlength, hassigned]

/-- In front of the command nothing is known of these options. -/
theorem exists_general_item : ∃ x, generalGrammar.item name = .ok x := by
  have hfirst := Text.splitFirst_of_not_mem h.equals_not_mem
  refine Grammar.exists_item h.general_lookup ?_ ?_
  · rw [Grammar.assignedOption?, hfirst]
    rfl
  · unfold Grammar.meanings
    split
    · rw [hfirst, List.filterMap_eq_nil_iff]
      exact fun o ho => if_neg (by rw [h.general_prefix o ho]; simp)
    · rw [List.filterMap_eq_nil_iff]
      intro o ho
      rw [if_neg (h.general_letter o ho), if_neg (by rw [h.general_prefix o ho]; simp)]

theorem exists_general_item_assigned : ∃ x, generalGrammar.item (name ++ ('=' : CodePoint) :: value) = .ok x := by
  have hfirst := Text.splitFirst_append_cons h.equals_not_mem value
  have hplain : ∀ o ∈ generalGrammar.options, ('=' : CodePoint) ∉ o.1 := by decide
  refine Grammar.exists_item (lookup_assigned hplain) ?_ ?_
  · rw [Grammar.assignedOption?, hfirst]
    dsimp only [Option.bind_eq_bind, Option.bind_some]
    rw [h.general_lookup]
    rfl
  · unfold Grammar.meanings
    split
    · rw [hfirst, List.filterMap_eq_nil_iff]
      exact fun o ho => if_neg (by rw [h.general_prefix o ho]; simp)
    · rw [List.filterMap_eq_nil_iff]
      intro o ho
      have htake : (name ++ ('=' : CodePoint) :: value).take 2 = name.take 2 := List.take_append_of_le_length h.length
      have hnot : ¬ (name ++ ('=' : CodePoint) :: value).isPrefixOf o.1 = true := by
        intro hprefix
        exact hplain o ho ((List.isPrefixOf_iff_prefix.1 hprefix).subset (by simp))
      rw [htake, if_neg (h.general_letter o ho), if_neg hnot]

end IsValueName

/-! ## reading options -/

/-- The option as it is noted. -/
def noted (s : Flag × Text) : Flag × Option Text := (s.1, Grammar.valueOf s.2)

theorem note_valueOf {flag : Flag} (h : flag.hasValue = true) (p : Parsed) (value : Text) :
    p.note (flag, Grammar.valueOf value) = .ok { p with options := p.options ++ [noted (flag, value)] } := by
  cases flag with
  | help | version | verbose => cases h
  | config | define | list | map | json => rfl

/-- An option with a value, which is attached to it or the next argument. -/
theorem takeOption_eq {flag : Flag} (hvalue : flag.hasValue = true) (p : Parsed) {o : OptionItem} {value : Text}
    {behind rest : List Item} (hflag : o.flag = some flag)
    (h : o.attached = some value ∧ behind = rest ∨ o.attached = none ∧ behind = .argument value :: rest) :
    expandGrammar.takeOption p o behind = .ok ({ p with options := p.options ++ [noted (flag, value)] }, rest) := by
  have hnote := note_valueOf hvalue p value
  obtain ⟨_, isLetter, attached⟩ := o
  cases hflag
  rcases h with ⟨hattached, rfl⟩ | ⟨hattached, rfl⟩
  · cases hattached
    have hjoined : expandGrammar.joined flag isLetter (some value) = .ok { last := flag, value := some value } := by
      unfold Grammar.joined Grammar.joined.letters
      exact if_pos hvalue
    unfold Grammar.takeOption
    dsimp only
    rw [hjoined]
    simp only [bind, Except.bind, pure, Except.pure, hvalue, List.map_nil, List.foldlM_nil, hnote]
    rfl
  · cases hattached
    unfold Grammar.takeOption
    simp only [Grammar.joined, bind, Except.bind, pure, Except.pure, hvalue, List.map_nil, List.foldlM_nil, hnote]
    rfl

/-- **Spelled options are read as what they are**, and the arguments behind them as if they were not there. -/
theorem Spelling.step {s : Flag × Text} {words : List Text} (h : Spelling s words) :
    ∃ (o : OptionItem) (t : Text) (xs : List Item),
      (∀ ts, expandGrammar.items (words ++ ts) = (.option o t :: xs ++ ·) <$> expandGrammar.items ts) ∧
      ∀ p rest,
        expandGrammar.takeOption p o (xs ++ rest) = .ok ({ p with options := p.options ++ [noted s] }, rest) := by
  cases h with
  | @apart name value flag known plain =>
    have hname := isValueName_of_mem known
    refine ⟨{ flag := some flag, isLetter := Grammar.isLetter name }, name, [.argument value], fun ts => ?_,
      fun p rest => takeOption_eq hname.hasValue p rfl (.inr ⟨rfl, rfl⟩)⟩
    rw [List.cons_append, List.cons_append, List.nil_append, Grammar.items_cons hname.ne_dashes, hname.item_eq,
      Grammar.items_argument plain]
    cases expandGrammar.items ts <;> rfl
  | @joined name value flag known =>
    have hname := isValueName_of_mem known
    refine ⟨{ flag := some flag, isLetter := Grammar.isLetter name, attached := some value },
      name ++ ('=' : CodePoint) :: value, [], fun ts => ?_,
      fun p rest => takeOption_eq hname.hasValue p rfl (.inl ⟨rfl, rfl⟩)⟩
    rw [List.cons_append, List.nil_append, Grammar.items_cons IsValueName.assigned_ne_dashes, hname.item_assigned]
    cases expandGrammar.items ts <;> rfl

theorem takeAll_option (fuel : Nat) (p : Parsed) (o : OptionItem) (t : Text) (rest : List Item) :
    expandGrammar.takeAll (fuel + 1) p (.option o t :: rest) =
      (expandGrammar.takeOption p o rest >>= fun r => expandGrammar.takeAll fuel r.1 r.2) := rfl

/-- **Options are read one after another.** -/
theorem exists_items_spelled {settings : List (Flag × Text)} {words : List (List Text)}
    (h : List.Forall₂ Spelling settings words) :
    ∃ xs : List Item, xs.head? ≠ some .dashes ∧ settings.length ≤ xs.length ∧
      (∀ ts, expandGrammar.items (words.flatten ++ ts) = (xs ++ ·) <$> expandGrammar.items ts) ∧
      ∀ fuel p rest, expandGrammar.takeAll (fuel + settings.length) p (xs ++ rest) =
        expandGrammar.takeAll fuel { p with options := p.options ++ settings.map noted } rest := by
  induction h with
  | nil =>
    refine ⟨[], nofun, Nat.le_refl _, fun ts => ?_, fun fuel p rest => ?_⟩
    · cases h : expandGrammar.items ts <;> exact h
    · rw [List.map_nil, List.append_nil]
      rfl
  | @cons s w settings words hs _ ih =>
    obtain ⟨o, t, xs, hitems, htake⟩ := hs.step
    obtain ⟨ys, -, hlength, hitems', htake'⟩ := ih
    refine ⟨.option o t :: xs ++ ys, nofun, ?_, fun ts => ?_, fun fuel p rest => ?_⟩
    · rw [List.length_cons, List.cons_append, List.length_cons, List.length_append]
      omega
    · rw [List.flatten_cons, List.append_assoc, hitems, hitems']
      cases expandGrammar.items ts with
      | error e => rfl
      | ok zs => exact congrArg Except.ok (List.append_assoc _ _ _).symm
    · rw [List.length_cons, ← Nat.add_assoc, List.cons_append, List.cons_append, List.append_assoc, takeAll_option,
        htake]
      show expandGrammar.takeAll (fuel + settings.length) _ (ys ++ rest) = _
      rw [htake', List.append_assoc]
      rfl

theorem takePositional_argument {p : Parsed} (hp : p.positional = none) {t : Text} {rest : List Item}
    (hrest : rest.head? ≠ some .dashes) : expandGrammar.takePositional p (.argument t :: rest) = some ([t], rest) := by
  unfold Grammar.takePositional
  rw [hp]
  cases rest with
  | nil => rfl
  | cons x rest =>
    cases x with
    | dashes => exact absurd rfl hrest
    | argument u => rfl
    | option o u => rfl

theorem takeAll_argument {g : Grammar} {p : Parsed} {t : Text} {rest behind : List Item} {texts : List Text}
    (h : g.takePositional p (.argument t :: rest) = some (texts, behind)) (fuel : Nat) :
    g.takeAll (fuel + 1) p (.argument t :: rest) = g.takeAll fuel { p with positional := some texts } behind := by
  simp only [Grammar.takeAll, h]

/-- **The arguments of an expansion**: options around the template. -/
theorem read_spelled {before after : List (Flag × Text)} {words words' : List (List Text)}
    (hbefore : List.Forall₂ Spelling before words) (hafter : List.Forall₂ Spelling after words') {argument : Text}
    (hargument : argument.head? ≠ some '-') :
    expandGrammar.read (words.flatten ++ argument :: words'.flatten) =
      .ok { options := (before ++ after).map noted, positional := some [argument] } := by
  obtain ⟨xs, -, hlength, hitems, htake⟩ := exists_items_spelled hbefore
  obtain ⟨ys, hhead, hlength', hitems', htake'⟩ := exists_items_spelled hafter
  have hbehind : expandGrammar.items words'.flatten = .ok ys := by
    have hall := hitems' []
    rw [List.append_nil] at hall
    rw [hall]
    exact congrArg Except.ok (List.append_nil ys)
  have hall : expandGrammar.items (words.flatten ++ argument :: words'.flatten) =
      .ok (xs ++ .argument argument :: ys) := by
    rw [hitems, Grammar.items_argument hargument, hbehind]
    rfl
  -- every item takes one step, and an option with its value may be two items: some steps are left over
  have hfuel : ∃ k, (xs ++ .argument argument :: ys).length + 1 = k + after.length + 1 + before.length := by
    refine ⟨xs.length - before.length + (ys.length - after.length) + 1, ?_⟩
    rw [List.length_append, List.length_cons]
    omega
  obtain ⟨k, hk⟩ := hfuel
  unfold Grammar.read
  rw [hall]
  show expandGrammar.takeAll _ _ _ = _
  rw [hk, htake, takeAll_argument (takePositional_argument rfl hhead), ← List.append_nil ys, htake']
  have hend : ∀ p, expandGrammar.takeAll k p [] = .ok p := by
    intro p
    cases k <;> rfl
  rw [hend, List.map_append]
  rfl

/-- **The arguments behind a command** are left to the command. -/
theorem read_command {name : Text} {rest : List Text} (hname : name.head? ≠ some '-')
    (hrest : ∀ t ∈ rest, ∃ x, generalGrammar.item t = .ok x) :
    generalGrammar.read (name :: rest) = .ok { positional := some (name :: rest) } := by
  obtain ⟨xs, hxs⟩ := Grammar.exists_items hrest
  have hall : generalGrammar.items (name :: rest) = .ok (.argument name :: xs) := by
    rw [Grammar.items_argument hname, hxs]
    rfl
  unfold Grammar.read
  rw [hall]
  show generalGrammar.takeAll (xs.length + 1 + 1) {} (.argument name :: xs) = _
  have htexts : generalGrammar.takePositional {} (.argument name :: xs) = some (name :: xs.map Item.text, []) := rfl
  rw [takeAll_argument htexts, Grammar.items_text hxs]
  rfl

theorem Spelling.exists_general_item {s : Flag × Text} {words : List Text} (h : Spelling s words) :
    ∀ t ∈ words, ∃ x, generalGrammar.item t = .ok x := by
  cases h with
  | apart known plain =>
    have hname := (isValueName_of_mem known).exists_general_item
    exact List.forall_mem_cons.2 ⟨hname, List.forall_mem_singleton.2 ⟨_, Grammar.item_argument plain⟩⟩
  | joined known =>
    exact List.forall_mem_singleton.2 (isValueName_of_mem known).exists_general_item_assigned

/-! ## command lines in two orders -/

open Invocation (valuesOf lastOf)

/-- The same values of each option, in the same order. -/
def SameValues (os os' : List (Flag × Option Text)) : Prop := ∀ flag, valuesOf flag os = valuesOf flag os'

/-- **Command lines of an expansion in two orders**: the template is the same, and so are the values of each option, in
their order. -/
inductive Reordered (args args' : List Text) : Prop
  | intro {p p' q q' : Parsed} {rest rest' : List Text} (read : generalGrammar.read args = .ok p)
    (read' : generalGrammar.read args' = .ok p') (same : SameValues p.options p'.options) (extra : p.extra = p'.extra)
    (command : p.positional = some (("expand" : Text) :: rest))
    (command' : p'.positional = some (("expand" : Text) :: rest')) (behind : expandGrammar.read rest = .ok q)
    (behind' : expandGrammar.read rest' = .ok q') (sameBehind : SameValues q.options q'.options)
    (template : q.positional = q'.positional) (extraBehind : q.extra = q'.extra)

theorem any_eq_of_sameValues {os os' : List (Flag × Option Text)} (h : SameValues os os') (flag : Flag) :
    (os.any fun o => o.1 = flag) = os'.any fun o => o.1 = flag := by
  have hany : ∀ os : List (Flag × Option Text), (os.any fun o => o.1 = flag) = !(valuesOf flag os).isEmpty := by
    intro os
    rw [valuesOf, List.isEmpty_map]
    induction os with
    | nil => rfl
    | cons o os ih =>
      rw [List.any_cons, List.filter_cons, ih]
      split <;> simp_all
  rw [hany, hany, h flag]

theorem theTemplate_eq {q q' : Parsed} (template : q.positional = q'.positional) (extra : q.extra = q'.extra) :
    Invocation.theTemplate q = Invocation.theTemplate q' := by
  unfold Invocation.theTemplate
  rw [template, extra]

theorem commandOf_expand (rest : List Text) :
    Invocation.commandOf "expand" rest = (do
      let q ← expandGrammar.read rest
      return .expand (← Invocation.theTemplate q)
        { defines := valuesOf .define q.options, lists := valuesOf .list q.options, maps := valuesOf .map q.options,
          json := lastOf .json q.options }) := by
  unfold Invocation.commandOf
  exact if_pos rfl

/-- **The order does not matter** for the invocation. -/
theorem Reordered.ofArguments_eq {args args' : List Text} (h : Reordered args args') :
    Invocation.ofArguments args = Invocation.ofArguments args' := by
  obtain ⟨read, read', same, extra, command, command', behind, behind', sameBehind, template, extraBehind⟩ := h
  rename_i p p' q q' rest rest'
  have hcommand : Invocation.commandOf "expand" rest = Invocation.commandOf "expand" rest' := by
    rw [commandOf_expand, commandOf_expand, behind, behind']
    show (Invocation.theTemplate q >>= _) = Invocation.theTemplate q' >>= _
    rw [theTemplate_eq template extraBehind, sameBehind, sameBehind, sameBehind, lastOf, lastOf, sameBehind]
  have hconfig : lastOf .config p.options = lastOf .config p'.options := by rw [lastOf, lastOf, same]
  unfold Invocation.ofArguments
  rw [read, read']
  dsimp only [bind, Except.bind]
  rw [command, command']
  dsimp only
  rw [hcommand, extra, hconfig, any_eq_of_sameValues same]

theorem sameValues_noted {settings settings' : List (Flag × Text)}
    (h : ∀ flag, settings.filter (·.1 = flag) = settings'.filter (·.1 = flag)) :
    SameValues (settings.map noted) (settings'.map noted) := by
  have hvalues : ∀ (flag : Flag) (settings : List (Flag × Text)),
      valuesOf flag (settings.map noted) = (settings.filter (·.1 = flag)).map fun s => Grammar.valueOf s.2 := by
    intro flag settings
    rw [valuesOf, List.filter_map, List.map_map]
    rfl
  intro flag
  rw [hvalues, hvalues, h flag]

section

variable {before after : List (Flag × Text)} {words behind : List (List Text)}
  (hbefore : List.Forall₂ Spelling before words) (hafter : List.Forall₂ Spelling after behind) {argument : Text}
  (hargument : argument.head? ≠ some '-')

include hbefore hafter hargument

theorem read_expand :
    generalGrammar.read ("expand" :: (words.flatten ++ argument :: behind.flatten)) =
      .ok { positional := some ("expand" :: (words.flatten ++ argument :: behind.flatten)) } := by
  have hitems : ∀ {settings : List (Flag × Text)} {words : List (List Text)}, List.Forall₂ Spelling settings words →
      ∀ t ∈ words.flatten, ∃ x, generalGrammar.item t = .ok x := by
    intro settings words hwords
    induction hwords with
    | nil => simp
    | cons hs _ ih => exact List.forall_mem_append.2 ⟨hs.exists_general_item, ih⟩
  refine read_command (by decide) (List.forall_mem_append.2 ⟨hitems hbefore, ?_⟩)
  exact List.forall_mem_cons.2 ⟨⟨_, Grammar.item_argument hargument⟩, hitems hafter⟩

/-- **The invocation of options as they are written**, around the template. -/
theorem ofArguments_spelled :
    Invocation.ofArguments ("expand" :: (words.flatten ++ argument :: behind.flatten)) =
      .ok { command := .expand argument
              { defines := valuesOf .define ((before ++ after).map noted),
                lists := valuesOf .list ((before ++ after).map noted),
                maps := valuesOf .map ((before ++ after).map noted),
                json := lastOf .json ((before ++ after).map noted) } } := by
  unfold Invocation.ofArguments
  rw [read_expand hbefore hafter hargument]
  show (Invocation.commandOf "expand" _ >>= _) = _
  rw [commandOf_expand, read_spelled hbefore hafter hargument]
  rfl

/-- **Options as they are written, in two orders**, around the template. -/
theorem Reordered.of_spelled {before' after' : List (Flag × Text)} {words' behind' : List (List Text)}
    (hbefore' : List.Forall₂ Spelling before' words') (hafter' : List.Forall₂ Spelling after' behind')
    (h : ∀ flag, (before ++ after).filter (·.1 = flag) = (before' ++ after').filter (·.1 = flag)) :
    Reordered ("expand" :: (words.flatten ++ argument :: behind.flatten))
      ("expand" :: (words'.flatten ++ argument :: behind'.flatten)) :=
  .intro (read_expand hbefore hafter hargument) (read_expand hbefore' hafter' hargument) (fun _ => rfl) rfl rfl rfl
    (read_spelled hbefore hafter hargument) (read_spelled hbefore' hafter' hargument) (sameValues_noted h) rfl rfl

end

end UriTemplate.CommandLine

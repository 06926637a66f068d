import Relock.Proofs.Toml.Quoted
import Relock.Toml.Layout
import Relock.Toml.Statement

/-!
# The statements of a generated document

A generated document is read as the statements that its settings are: a pair for each of them, with
a header before those of a section (`says_layout`). Its keys must not need quotes (`IsBare`).

`Says` is that some lines are read as some statements, whatever lines stand after them, so that the
lines of a document can be taken one after the other.
-/

namespace Relock.Toml

/-- A key that needs no quotes. -/
def IsBare (key : String) : Prop :=
  key.toList ≠ [] ∧ ∀ c ∈ key.toList, Statement.isKeyChar c = true

namespace Layout

/-- The item that a value is written as. -/
def item : Setting → Item
  | .text value => .plain (.string value)
  | .list values => .array (values.map fun value => .plain (.string value))

def pairs (settings : Settings) : List Statement :=
  settings.map fun (key, v) => .pair [key] (item v)

def sectionStatements (name : String) (settings : Settings) : List Statement :=
  .elementHeader [name] :: pairs settings

def statements (d : Layout) : List Statement :=
  pairs d.settings ++ d.sections.flatMap (sectionStatements d.sectionName)

/-- All keys of a document can be written without quotes. -/
structure Bare (d : Layout) : Prop where
  settings : ∀ key ∈ d.settings.map (·.1), IsBare key
  sectionName : IsBare d.sectionName
  sections : ∀ s ∈ d.sections, ∀ key ∈ s.map (·.1), IsBare key

end Layout

namespace Statement

open Quoted (isSpace isLineChar dropLineEnd? NoQuote quote)

/-- The longest beginning with `p` ends before a character without `p`. -/
theorem takeWhile_dropWhile_cons {p : Char → Bool} {front : List Char} {c : Char}
    (hfront : ∀ c ∈ front, p c = true) (hc : p c = false) (rest : List Char) :
    (front ++ c :: rest).takeWhile p = front ∧ (front ++ c :: rest).dropWhile p = c :: rest :=
  Text.takeWhile_dropWhile_append hfront fun _ hd => Option.some.inj hd ▸ hc

/-! ## Keys -/

theorem skipSpaces_cons {c : Char} (h : isSpace c = false) (cs : List Char) :
    skipSpaces (c :: cs) = c :: cs := by
  unfold skipSpaces
  exact List.dropWhile_cons_of_neg (by simp [h])

/-- A key begins with a character that nothing else but a key begins with. -/
theorem exists_of_isBare {key : String} (h : IsBare key) :
    ∃ c cs, key.toList = c :: cs ∧ isSpace c = false ∧
      c ≠ '"' ∧ c ≠ '\'' ∧ c ≠ '[' ∧ c ≠ '#' ∧ c ≠ '\n' ∧ c ≠ '\r' := by
  obtain ⟨hne, hall⟩ := h
  obtain ⟨c, cs, heq⟩ := List.exists_cons_of_ne_nil hne
  have hc : isKeyChar c = true := hall c (by rw [heq]; exact List.mem_cons_self)
  refine ⟨c, cs, heq, ?_, ?_, ?_, ?_, ?_, ?_, ?_⟩
  · cases hspace : isSpace c with
    | false => rfl
    | true =>
        have hcases : c = ' ' ∨ c = '\t' := by simpa [isSpace] using hspace
        rcases hcases with rfl | rfl <;> exact absurd hc (by decide)
  all_goals
    rintro rfl
    exact absurd hc (by decide)

/-- A key is read up to the first character that is none of a key. -/
theorem keyPart?_append {key : String} (h : IsBare key) {d : Char} (hd : isKeyChar d = false)
    (rest : List Char) : keyPart? (key.toList ++ d :: rest) = some (key, d :: rest) := by
  obtain ⟨c, cs, heq, -, hbasic, hliteral, -⟩ := exists_of_isBare h
  obtain ⟨htake, hdrop⟩ := takeWhile_dropWhile_cons h.2 hd rest
  have hkey : String.ofList (c :: cs) = key := by rw [← heq, String.ofList_toList]
  rw [heq] at htake hdrop ⊢
  unfold keyPart?
  split
  · next heq => exact absurd (List.cons.inj heq).1 hbasic
  · next heq => exact absurd (List.cons.inj heq).1 hliteral
  · rw [htake, hdrop]
    dsimp only
    rw [hkey]

/-- A key of one part is read with the blanks after it. -/
theorem key?_append {key : String} (h : IsBare key) {d e : Char} {rest after : List Char}
    (hd : isKeyChar d = false) (hafter : skipSpaces (d :: rest) = e :: after) (he : e ≠ '.')
    (room : Nat) : key? (room + 1) (key.toList ++ d :: rest) = some ([key], e :: after) := by
  have hskip : skipSpaces (key.toList ++ d :: rest) = key.toList ++ d :: rest := by
    obtain ⟨c, cs, heq, hspace, -⟩ := exists_of_isBare h
    rw [heq]
    exact skipSpaces_cons hspace _
  unfold key?
  rw [hskip, keyPart?_append h hd]
  dsimp only [Option.bind_eq_bind, Option.bind_some]
  rw [hafter]
  split
  · next heq => exact absurd (List.cons.inj heq).1 he
  · rfl

/-! ## Values -/

theorem exists_of_quote (text : String) :
    ∃ d cs, quote text = d :: cs ∧ (d = '"' ∨ d = '\'') := by
  unfold quote
  dsimp only
  split
  · exact ⟨_, _, rfl, .inl rfl⟩
  split
  · exact ⟨_, _, rfl, .inr rfl⟩
  split
  · exact ⟨_, _, rfl, .inl rfl⟩
  split
  · exact ⟨_, _, rfl, .inr rfl⟩
  split
  · exact ⟨_, _, rfl, .inl rfl⟩
  · exact ⟨_, _, rfl, .inl rfl⟩

theorem itemWith?_quote (inner? : List Char → Option (Item × List Char)) (text : String)
    {rest : List Char} (hrest : NoQuote rest) :
    itemWith? inner? (quote text ++ rest) = some (.plain (.string text), rest) := by
  have hread := Quoted.read?_quote text hrest
  obtain ⟨d, cs, hquote, hd⟩ := exists_of_quote text
  rw [hquote, List.cons_append] at hread ⊢
  rcases hd with rfl | rfl
  · simp [itemWith?, hread]
  · simp [itemWith?, hread]

/-- A text is read however deep it stands. -/
theorem item?_quote (depth : Nat) (text : String) {rest : List Char} (hrest : NoQuote rest) :
    item? depth (quote text ++ rest) = some (.plain (.string text), rest) := by
  cases depth with
  | zero =>
      -- only what begins as an array or a table is refused here
      have hhead : ¬ ((quote text ++ rest).head? = some '[' ∨
          (quote text ++ rest).head? = some '\x7b') := by
        obtain ⟨d, cs, hquote, hd⟩ := exists_of_quote text
        rw [hquote]
        rcases hd with rfl | rfl <;> simp
      rw [item?, if_neg hhead]
      exact itemWith?_quote _ text hrest
  | succ depth => exact itemWith?_quote _ text hrest

/-- Nothing is skipped before what is neither blank nor a comment. -/
theorem skipBlank?_cons {c : Char} (hspace : isSpace c = false) (hcomment : c ≠ '#')
    (hfeed : c ≠ '\n') (hreturn : c ≠ '\r') (room : Nat) (cs : List Char) :
    skipBlank? room (c :: cs) = some (c :: cs) := by
  cases room with
  | zero => rfl
  | succ room =>
      unfold skipBlank?
      rw [skipSpaces_cons hspace]
      split
      · next heq => exact absurd (List.cons.inj heq).1 hcomment
      · next heq => exact absurd (List.cons.inj heq).1 hfeed
      · next heq => exact absurd (List.cons.inj heq).1 hreturn
      · rfl

theorem skipBlank?_quote (room : Nat) (text : String) (rest : List Char) :
    skipBlank? room (quote text ++ rest) = some (quote text ++ rest) := by
  obtain ⟨d, cs, hquote, hd⟩ := exists_of_quote text
  rw [hquote]
  rcases hd with rfl | rfl
  · exact skipBlank?_cons (by decide) (by decide) (by decide) (by decide) room _
  · exact skipBlank?_cons (by decide) (by decide) (by decide) (by decide) room _

theorem skipBlank?_space (room : Nat) (cs : List Char) :
    skipBlank? (room + 1) (' ' :: cs) = skipBlank? (room + 1) cs :=
  rfl

/-- A line end and the blanks that indent a text are skipped. -/
theorem skipBlank?_indented (room : Nat) (text : String) (rest : List Char) :
    skipBlank? (room + 2) ("\n    ".toList ++ (quote text ++ rest)) =
      some (quote text ++ rest) := by
  show skipBlank? (room + 1) (' ' :: ' ' :: ' ' :: ' ' :: (quote text ++ rest)) = _
  rw [skipBlank?_space, skipBlank?_space, skipBlank?_space, skipBlank?_space, skipBlank?_quote]

theorem noQuote_cons {c : Char} (h : c ≠ '"' ∧ c ≠ '\'') (cs : List Char) : NoQuote (c :: cs) :=
  fun _ hd => (Option.some.inj hd) ▸ h

section

variable {cs : List Char} {text : String} {rest : List Char}

/-- A text among the items of an array, with a comma after it. -/
theorem items?_comma (depth room : Nat)
    (h : skipBlank? cs.length cs = some (quote text ++ ',' :: rest)) :
    items? (item? depth) (room + 1) cs =
      (items? (item? depth) room rest).map fun (items, rest) =>
        (.plain (.string text) :: items, rest) := by
  have hitem := item?_quote depth text (noQuote_cons (c := ',') (by decide) rest)
  obtain ⟨d, quoted, hquote, hd⟩ := exists_of_quote text
  rw [hquote, List.cons_append] at h hitem
  conv => lhs; rw [items?, h]
  rcases hd with rfl | rfl
  · show ((item? depth _).bind _ : Option _) = _
    rw [hitem]
    rfl
  · show ((item? depth _).bind _ : Option _) = _
    rw [hitem]
    rfl

/-- The last text among the items of an array. -/
theorem items?_last (depth room : Nat)
    (h : skipBlank? cs.length cs = some (quote text ++ ']' :: rest)) :
    items? (item? depth) (room + 1) cs = some ([.plain (.string text)], rest) := by
  have hitem := item?_quote depth text (noQuote_cons (c := ']') (by decide) rest)
  obtain ⟨d, quoted, hquote, hd⟩ := exists_of_quote text
  rw [hquote, List.cons_append] at h hitem
  rw [items?, h]
  rcases hd with rfl | rfl
  · show ((item? depth _).bind _ : Option _) = _
    rw [hitem]
    rfl
  · show ((item? depth _).bind _ : Option _) = _
    rw [hitem]
    rfl

end

/-- The lines of a list, each with one text. -/
theorem items?_lines (depth : Nat) (values : List String) (rest : List Char) {room : Nat}
    (h : values.length < room) :
    items? (item? depth) room (values.flatMap (fun value =>
        "\n    ".toList ++ quote value ++ [',']) ++ '\n' :: ']' :: rest) =
      some (values.map fun value => .plain (.string value), rest) := by
  induction values generalizing room with
  | nil =>
      obtain ⟨room, rfl⟩ := Nat.exists_eq_add_one_of_ne_zero (Nat.ne_zero_of_lt h)
      rfl
  | cons value values ih =>
      obtain ⟨room, rfl⟩ := Nat.exists_eq_add_one_of_ne_zero (Nat.ne_zero_of_lt h)
      rw [List.flatMap_cons, List.append_assoc, List.append_assoc, List.append_assoc,
        List.singleton_append, items?_comma depth room (skipBlank?_indented _ value _),
        ih (by simpa using h)]
      rfl

theorem length_le_lines (values : List String) :
    values.length ≤
      (values.flatMap fun value => "\n    ".toList ++ quote value ++ [',']).length := by
  induction values with
  | nil => exact Nat.le_refl 0
  | cons value values ih =>
      rw [List.flatMap_cons, List.length_append, List.length_append]
      simp only [List.length_cons, List.length_nil]
      omega

/-- A value is read as its item. -/
theorem item?_value (depth : Nat) (v : Setting) {rest : List Char} (hrest : NoQuote rest) :
    item? (depth + 1) (Layout.value v ++ rest) = some (Layout.item v, rest) := by
  cases v with
  | text value => exact item?_quote (depth + 1) value hrest
  | list values =>
      cases values with
      | nil => rfl
      | cons value values =>
          cases values with
          | nil =>
              have hitems := items?_last depth (quote value ++ ']' :: rest).length
                (skipBlank?_quote _ value (']' :: rest))
              show item? (depth + 1) ('[' :: (quote value ++ [']']) ++ rest) = _
              rw [List.cons_append, List.append_assoc, List.singleton_append]
              show (items? (item? depth) _ _).map _ = _
              rw [hitems]
              rfl
          | cons value' values =>
              -- from two values on each has a line of its own
              have hlength := length_le_lines (value :: value' :: values)
              show item? (depth + 1) ('[' :: (List.flatMap _ (value :: value' :: values) ++
                ['\n', ']']) ++ rest) = _
              rw [List.cons_append, List.append_assoc, List.cons_append, List.singleton_append]
              show (items? (item? depth) _ _).map _ = _
              rw [items?_lines depth (value :: value' :: values) rest]
              · rfl
              · rw [List.length_append]
                omega

/-! ## Lines -/

/-- What a value is written as begins neither with a blank nor with a line end. -/
theorem skipSpaces_value (v : Setting) (rest : List Char) :
    skipSpaces (' ' :: (Layout.value v ++ rest)) = Layout.value v ++ rest := by
  have hhead : ∃ d cs, Layout.value v = d :: cs ∧ isSpace d = false := by
    cases v with
    | text value =>
        obtain ⟨d, cs, hquote, hd⟩ := exists_of_quote value
        exact ⟨d, cs, hquote, by rcases hd with rfl | rfl <;> decide⟩
    | list values =>
        refine ⟨'[', (Layout.value (.list values)).tail, ?_, by decide⟩
        rcases values with _ | ⟨_, _ | ⟨_, _⟩⟩ <;> rfl
  obtain ⟨d, cs, hvalue, hd⟩ := hhead
  show skipSpaces (Layout.value v ++ rest) = _
  rw [hvalue]
  exact skipSpaces_cons hd _

/-- A setting is read as its pair. -/
theorem read?_pair {key : String} (h : IsBare key) (v : Setting) (rest : List Char) :
    read? (key.toList ++ " = ".toList ++ Layout.value v ++ ['\n'] ++ rest) =
      some (.pair [key] (Layout.item v), rest) := by
  -- `maxDepth` is `78 + 1`, and the lemmas ask for a successor
  have hkey : key? maxDepth (key.toList ++ (" = ".toList ++ (Layout.value v ++ '\n' :: rest))) =
      some ([key], '=' :: ' ' :: (Layout.value v ++ '\n' :: rest)) :=
    key?_append h (by decide) rfl (by decide) 78
  have hitem := item?_value 78 v (noQuote_cons (c := '\n') (by decide) rest)
  have hpair : pair? (item? maxDepth)
      (key.toList ++ (" = ".toList ++ (Layout.value v ++ '\n' :: rest))) =
        some (([key], Layout.item v), '\n' :: rest) := by
    unfold pair?
    rw [hkey]
    show ((item? (78 + 1) (skipSpaces (' ' :: (Layout.value v ++ '\n' :: rest)))).bind _ :
      Option _) = _
    rw [skipSpaces_value, hitem]
    rfl
  obtain ⟨c, cs, heq, -, -, -, hbracket, -⟩ := exists_of_isBare h
  simp only [List.append_assoc, List.singleton_append]
  rw [heq, List.cons_append] at hpair ⊢
  unfold read?
  split
  · next heq => exact absurd (List.cons.inj heq).1 hbracket
  · next heq => exact absurd (List.cons.inj heq).1 hbracket
  · rw [hpair]
    rfl

/-- The header of a section is read as such. -/
theorem read?_elementHeader {name : String} (h : IsBare name) (rest : List Char) :
    read? ("[[".toList ++ name.toList ++ "]]\n".toList ++ rest) =
      some (.elementHeader [name], rest) := by
  have hkey : key? maxDepth (name.toList ++ (']' :: ']' :: '\n' :: rest)) =
      some ([name], ']' :: ']' :: '\n' :: rest) :=
    key?_append h (by decide) rfl (by decide) 78
  rw [List.append_assoc, List.append_assoc]
  show ((key? maxDepth (name.toList ++ (']' :: ']' :: '\n' :: rest))).bind _ : Option _) = _
  rw [hkey]
  rfl

/-! ## Documents -/

/-- Some lines are read as some statements, whatever lines stand after them. -/
def Says (cs : List Char) (statements : List Statement) : Prop :=
  ∀ (rest : List Char) (others : List Statement),
    (∀ room, rest.length < room → readAll? room rest = some others) →
    ∀ room, (cs ++ rest).length < room → readAll? room (cs ++ rest) = some (statements ++ others)

namespace Says

variable {cs cs' : List Char} {statements statements' : List Statement}

theorem nil : Says [] [] :=
  fun _ _ hrest => hrest

theorem append (h : Says cs statements) (h' : Says cs' statements') :
    Says (cs ++ cs') (statements ++ statements') := by
  intro rest others hrest room hroom
  rw [List.append_assoc] at hroom ⊢
  rw [List.append_assoc]
  exact h (cs' ++ rest) (statements' ++ others) (h' rest others hrest) room hroom

theorem blank : Says ['\n'] [] := by
  intro rest others hrest room hroom
  obtain ⟨room, rfl⟩ := Nat.exists_eq_add_one_of_ne_zero (Nat.ne_zero_of_lt hroom)
  exact hrest room (by simpa using hroom)

theorem comment (h : ∀ c ∈ cs, isLineChar c = true) : Says ('#' :: cs ++ ['\n']) [] := by
  intro rest others hrest room hroom
  obtain ⟨room, rfl⟩ := Nat.exists_eq_add_one_of_ne_zero (Nat.ne_zero_of_lt hroom)
  have hend : endLine? ('#' :: (cs ++ '\n' :: rest)) = some rest := by
    have hskip : skipComment (skipSpaces ('#' :: (cs ++ '\n' :: rest))) = '\n' :: rest :=
      (takeWhile_dropWhile_cons h (by decide) rest).2
    unfold endLine?
    rw [hskip]
    rfl
  rw [List.append_assoc, List.cons_append, List.singleton_append] at hroom ⊢
  show (endLine? ('#' :: (cs ++ '\n' :: rest))).bind (readAll? room) = _
  rw [hend]
  exact hrest room (by simp at hroom; omega)

/-- A line that is read as a statement. -/
theorem statement {c : Char} {statement : Statement}
    (hc : isSpace c = false ∧ c ≠ '#' ∧ c ≠ '\n' ∧ c ≠ '\r')
    (h : ∀ rest, read? (c :: cs ++ rest) = some (statement, rest)) :
    Says (c :: cs) [statement] := by
  obtain ⟨hspace, hcomment, hfeed, hreturn⟩ := hc
  intro rest others hrest room hroom
  obtain ⟨room, rfl⟩ := Nat.exists_eq_add_one_of_ne_zero (Nat.ne_zero_of_lt hroom)
  have hread := h rest
  rw [List.cons_append] at hread ⊢
  unfold readAll?
  rw [skipSpaces_cons hspace]
  split
  · next heq => exact absurd heq (by simp)
  · next heq => exact absurd (List.cons.inj heq).1 hcomment
  · next heq => exact absurd (List.cons.inj heq).1 hfeed
  · next heq => exact absurd (List.cons.inj heq).1 hreturn
  · rw [hread]
    dsimp only [Option.bind_eq_bind, Option.bind_some]
    rw [hrest room (by simp at hroom; omega)]
    rfl

end Says

theorem says_lines {settings : Settings} (h : ∀ key ∈ settings.map (·.1), IsBare key) :
    Says (Layout.lines settings) (Layout.pairs settings) := by
  induction settings with
  | nil => exact .nil
  | cons entry settings ih =>
      obtain ⟨key, v⟩ := entry
      have hkey : IsBare key := h key List.mem_cons_self
      have hfirst : Says (key.toList ++ " = ".toList ++ Layout.value v ++ ['\n'])
          [.pair [key] (Layout.item v)] := by
        have hread := read?_pair hkey v
        obtain ⟨c, cs, heq, hspace, -, -, -, hcomment, hfeed, hreturn⟩ := exists_of_isBare hkey
        rw [heq, List.cons_append, List.cons_append, List.cons_append] at hread ⊢
        exact .statement ⟨hspace, hcomment, hfeed, hreturn⟩ hread
      exact hfirst.append (ih fun key hkey => h key (List.mem_cons_of_mem _ hkey))

theorem says_sectionLines {name : String} {settings : Settings} (hname : IsBare name)
    (h : ∀ key ∈ settings.map (·.1), IsBare key) :
    Says (Layout.sectionLines name settings) (Layout.sectionStatements name settings) := by
  have hheader : Says ("[[".toList ++ name.toList ++ "]]\n".toList) [.elementHeader [name]] :=
    .statement (by decide) (read?_elementHeader hname)
  exact hheader.append (says_lines h)

theorem says_sectionsLines {name : String} {sections : List Settings} (hname : IsBare name)
    (h : ∀ s ∈ sections, ∀ key ∈ s.map (·.1), IsBare key) (isFirst : Bool) :
    Says (Layout.sectionsLines name isFirst sections)
      (sections.flatMap (Layout.sectionStatements name)) := by
  induction sections generalizing isFirst with
  | nil => exact .nil
  | cons s sections ih =>
      have hsection := says_sectionLines hname (h s List.mem_cons_self)
      have hothers := ih (fun s hs => h s (List.mem_cons_of_mem _ hs)) false
      have hgap : Says (if isFirst then [] else ['\n']) [] := by
        cases isFirst with
        | true => exact .nil
        | false => exact .blank
      exact (hgap.append hsection).append hothers

/-- A generated document is read as its statements. -/
theorem says_layout {d : Layout} (h : d.Bare) :
    Says (Layout.lines d.settings ++
      Layout.sectionsLines d.sectionName d.settings.isEmpty d.sections) d.statements :=
  (says_lines h.settings).append (says_sectionsLines h.sectionName h.sections _)

end Statement

/-- A text is read as what it says, unless a mark stands in front. -/
theorem statements?_eq_some {text : String} {statements : List Statement}
    (h : Statement.Says text.toList statements) (hmark : text.toList.head? ≠ some byteOrderMark) :
    statements? text = some statements := by
  unfold statements?
  dsimp only
  rw [if_neg hmark]
  have hread := h [] [] (fun room hroom => by
    obtain ⟨room, rfl⟩ := Nat.exists_eq_add_one_of_ne_zero (Nat.ne_zero_of_lt hroom)
    rfl) (text.toList.length + 1) (by simp)
  rw [List.append_nil, List.append_nil] at hread
  exact hread

end Relock.Toml

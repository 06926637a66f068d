import Relock.Text.Blank
import Relock.Toml.Quoted

/-!
# Quoted text is read back

Whatever a text holds, the quotes chosen for it can hold it, and reading gives the text and what
stands after it (`read?_quote`). There are four kinds of quotes and one lemma for each:

* `basicLine?_flatMap_escape` and `literalLine?_append` for a text on one line;
* `basicLines?_escapeLines` and `literalLines?_append` for a text over several lines. Here quotes
  may stand in the text, so reading has to tell two quotes at the end of the text from the three
  that close it: `run` counts the quotes that were read and may turn out to belong to the end.

A quote must not follow, as three quotes are read otherwise than two.
-/

namespace Relock.Toml.Quoted

/-- No quote stands in front. -/
def NoQuote (cs : List Char) : Prop :=
  ∀ c ∈ cs.head?, c ≠ '"' ∧ c ≠ '\''

/-! ## Characters -/

/-- A character that quotes can hold stands for itself on a line, unless it ends the line. -/
theorem isLineChar_of_isControl_eq_false {c : Char} (h : isControl c = false) (hfeed : c ≠ '\n') :
    isLineChar c = true := by
  by_cases htab : c = '\t'
  · simp [isLineChar, htab]
  · have hdelete : c ≠ '\x7f' := by
      rintro rfl
      exact absurd h (by decide)
    have hlow : 0x20 ≤ c.toNat := by
      simp only [isControl, Bool.and_eq_false_iff, Bool.or_eq_false_iff] at h
      rcases h with (h | h) | h
      · exact absurd (by simpa using h) htab
      · exact absurd (by simpa using h) hfeed
      · simpa using h.1
    have hne : c.toNat ≠ 0x7f := by
      intro heq
      exact hdelete (Char.toNat_inj.mp heq)
    have hrange : c.toNat ≤ 0x7e ∨ 0x80 ≤ c.toNat := by omega
    rcases hrange with hrange | hrange <;> simp [isLineChar, isWide, hlow, hrange]

/-- The value of a digit of base sixteen in capitals. -/
theorem hexValue?_upperHexDigit (n : Nat) : Text.hexValue? (upperHexDigit n) = some (n % 16) := by
  have hdigits : ∀ k < 16, Text.hexValue? (Nat.digitChar k).toUpper = some k := by decide
  exact hdigits (n % 16) (Nat.mod_lt n (by decide))

/-- An escape of four digits is read as its character. -/
theorem escape?_digits {c : Char} (h : c.toNat < 0x80) (cs : List Char) :
    escape? ('u' :: '0' :: '0' :: upperHexDigit (c.toNat / 16) :: upperHexDigit c.toNat :: cs) =
      some (c, cs) := by
  have hzero : Text.hexValue? '0' = some 0 := by decide
  have hvalue : c.toNat / 16 % 16 * 16 + c.toNat % 16 = c.toNat := by omega
  have hvalid : c.toNat.isValidChar := c.valid
  simp [escape?, hexNumber?, hzero, hexValue?_upperHexDigit, hvalue, char?, hvalid]

/-- A character is written as it is, or as a backslash and an escape that is read as it. -/
theorem escape_cases (c : Char) :
    (escape c = [c] ∧ isLineChar c = true ∧ c ≠ '"' ∧ c ≠ '\\' ∧ c ≠ '\n' ∧ c ≠ '\r') ∨
      ∃ letter letters, escape c = '\\' :: letter :: letters ∧
        (isSpace letter = false ∧ letter ≠ '\n' ∧ letter ≠ '\r') ∧
        ∀ cs, escape? (letter :: letters ++ cs) = some (c, cs) := by
  unfold escape
  split
  · exact .inr ⟨_, _, rfl, by decide, fun _ => rfl⟩
  · exact .inr ⟨_, _, rfl, by decide, fun _ => rfl⟩
  · exact .inr ⟨_, _, rfl, by decide, fun _ => rfl⟩
  · exact .inr ⟨_, _, rfl, by decide, fun _ => rfl⟩
  · exact .inr ⟨_, _, rfl, by decide, fun _ => rfl⟩
  · exact .inr ⟨_, _, rfl, by decide, fun _ => rfl⟩
  · exact .inr ⟨_, _, rfl, by decide, fun _ => rfl⟩
  · next _ _ hfeed _ hreturn hquote hslash =>
    -- no letter stands for the character, so it has four digits or stands for itself
    by_cases hcontrol : isControl c = true
    · right
      have hlow : c.toNat < 0x80 := by
        simp only [isControl, Bool.and_eq_true, Bool.or_eq_true, decide_eq_true_eq,
          beq_iff_eq] at hcontrol
        rcases hcontrol.2 with h | rfl
        · omega
        · decide
      rw [if_pos hcontrol]
      exact ⟨_, _, rfl, by decide, escape?_digits hlow⟩
    · left
      rw [if_neg hcontrol]
      have hline := isLineChar_of_isControl_eq_false (by simpa using hcontrol) hfeed
      exact ⟨rfl, hline, hquote, hslash, hfeed, hreturn⟩

/-! ## One line -/

/-- A written character is one piece of a basic text. -/
theorem basicLine?_escape (c : Char) (room : Nat) (cs : List Char) :
    basicLine? (room + 1) (escape c ++ cs) =
      (basicLine? room cs).map fun (text, rest) => (c :: text, rest) := by
  rcases escape_cases c with ⟨hescape, hline, hquote, hslash, -⟩ |
    ⟨letter, letters, hescape, -, hread⟩
  · rw [hescape, List.singleton_append, basicLine?]
    · rw [if_pos hline]
      rfl
    · exact hquote
    · exact hslash
  · rw [hescape, List.cons_append, basicLine?, hread]
    show (do
      let (text, cs) ← basicLine? room cs
      return (c :: text, cs)) = _
    cases basicLine? room cs <;> rfl

theorem basicLine?_flatMap_escape (cs rest : List Char) {room : Nat} (h : cs.length < room) :
    basicLine? room (cs.flatMap escape ++ '"' :: rest) = some (cs, rest) := by
  induction cs generalizing room with
  | nil =>
      obtain ⟨room, rfl⟩ := Nat.exists_eq_add_one_of_ne_zero (Nat.ne_zero_of_lt h)
      rfl
  | cons c cs ih =>
      obtain ⟨room, rfl⟩ := Nat.exists_eq_add_one_of_ne_zero (Nat.ne_zero_of_lt h)
      rw [List.flatMap_cons, List.append_assoc, basicLine?_escape, ih (by simpa using h)]
      rfl

theorem literalLine?_append {cs : List Char} (h : ∀ c ∈ cs, isLineChar c = true ∧ c ≠ '\'')
    (rest : List Char) : literalLine? (cs ++ '\'' :: rest) = some (cs, rest) := by
  induction cs with
  | nil => rfl
  | cons c cs ih =>
      obtain ⟨hline, hquote⟩ := h c List.mem_cons_self
      rw [List.cons_append, literalLine?]
      · rw [if_pos hline, ih fun c hc => h c (List.mem_cons_of_mem _ hc)]
        rfl
      · exact hquote

/-! ## Several lines -/

/-- A reader that takes quotes into the text one by one until they close it. -/
def ReadsQuotes (quote : Char) (read : Nat → List Char → Option (List Char × List Char)) : Prop :=
  ∀ room cs, read (room + 1) (quote :: cs) =
    (closing? quote (quote :: cs)).or ((read room cs).map (·.map (quote :: ·) id))

theorem readsQuotes_basicLines? : ReadsQuotes '"' basicLines? :=
  fun _ _ => rfl

theorem readsQuotes_literalLines? : ReadsQuotes '\'' literalLines? :=
  fun _ _ => rfl

section

variable {quote : Char} {rest : List Char} (hrest : rest.head? ≠ some quote)
include hrest

theorem takeWhile_replicate_append (n : Nat) :
    (List.replicate n quote ++ rest).takeWhile (· == quote) = List.replicate n quote := by
  refine (Text.takeWhile_dropWhile_append (fun c hc => ?_) fun c hc => ?_).1
  · simpa using List.eq_of_mem_replicate hc
  · have hne : c ≠ quote := fun heq => hrest (by rw [← heq]; exact hc)
    simpa using hne

/-- Three quotes close a text, and at most two quotes before them belong to it. -/
theorem closing?_replicate {run : Nat} (hrun : run ≤ 2) :
    closing? quote (List.replicate (run + 3) quote ++ rest) =
      some (List.replicate run quote, rest) := by
  have hinside : min (run + 3 - 3) 2 = run := by omega
  unfold closing?
  rw [takeWhile_replicate_append hrest, List.length_replicate, if_neg (by omega), hinside]
  dsimp only
  rw [List.drop_left' (List.length_replicate ..)]

/-- Fewer quotes do not. -/
theorem closing?_eq_none {run : Nat} (hrun : run ≤ 2) :
    closing? quote (List.replicate run quote ++ rest) = none := by
  unfold closing?
  rw [takeWhile_replicate_append hrest, List.length_replicate, if_pos (by omega)]

variable {read : Nat → List Char → Option (List Char × List Char)} (hread : ReadsQuotes quote read)
include hread

/-- The end of a text is read with the quotes before those that close it. -/
theorem read_closing {run : Nat} (hrun : run ≤ 2) (room : Nat) :
    read (room + 1) (List.replicate (run + 3) quote ++ rest) =
      some (List.replicate run quote, rest) := by
  have hclosing := closing?_replicate hrest hrun
  rw [List.replicate_succ, List.cons_append] at hclosing ⊢
  rw [hread, hclosing, Option.some_or]

/-- Up to two quotes in a text are read. -/
theorem read_quotes {run : Nat} (hrun : run ≤ 2) (room : Nat) :
    read (room + run) (List.replicate run quote ++ rest) =
      (read room rest).map fun (text, rest) => (List.replicate run quote ++ text, rest) := by
  induction run with
  | zero => cases hresult : read room rest <;> simp [hresult]
  | succ run ih =>
      have hopen := closing?_eq_none hrest hrun
      rw [List.replicate_succ, List.cons_append] at hopen ⊢
      rw [← Nat.add_assoc, hread, hopen, Option.none_or, ih (by omega)]
      cases read room rest <;> rfl

end

/-- The quotes before a piece that does not begin with one are read, and then the piece. -/
theorem read_piece {quote c d : Char} (piece : List Char) {after text rest : List Char}
    {run room : Nat} {read : Nat → List Char → Option (List Char × List Char)}
    (hread : ReadsQuotes quote read) (hrun : run ≤ 2) (hd : d ≠ quote)
    (hpiece : ∀ room cs, read (room + 1) (d :: piece ++ cs) =
      (read room cs).map fun (text, rest) => (c :: text, rest))
    (hafter : read room after = some (text, rest)) :
    read (room + 1 + run) (List.replicate run quote ++ (d :: piece ++ after)) =
      some (List.replicate run quote ++ c :: text, rest) := by
  have hfront : (d :: piece ++ after).head? ≠ some quote := by simpa using hd
  rw [read_quotes hfront hread hrun, hpiece, hafter]
  rfl

theorem dropLineEnd?_eq_none {c : Char} (hfeed : c ≠ '\n') (hreturn : c ≠ '\r') (cs : List Char) :
    dropLineEnd? (c :: cs) = none := by
  unfold dropLineEnd?
  split
  · next heq => exact absurd (List.cons.inj heq).1 hfeed
  · next heq => exact absurd (List.cons.inj heq).1 hreturn
  · rfl

/-- A written character is one piece of a basic text. -/
theorem basicLines?_escape (c : Char) (room : Nat) (cs : List Char) :
    basicLines? (room + 1) (escape c ++ cs) =
      (basicLines? room cs).map fun (text, rest) => (c :: text, rest) := by
  rcases escape_cases c with ⟨hescape, hline, hquote, hslash, hfeed, hreturn⟩ |
    ⟨letter, letters, hescape, ⟨hspace, hfeed, hreturn⟩, hread⟩
  · rw [hescape, List.singleton_append, basicLines?]
    · rw [dropLineEnd?_eq_none hfeed hreturn]
      dsimp only
      rw [if_pos hline]
      rfl
    · exact hquote
    · exact hslash
  · -- an escape must not be read as a line that goes on in the next one
    have hend : dropLineEnd? ((letter :: letters ++ cs).dropWhile isSpace) = none := by
      rw [List.cons_append, List.dropWhile_cons_of_neg (by simp [hspace])]
      exact dropLineEnd?_eq_none hfeed hreturn _
    rw [hescape, List.cons_append, basicLines?, hend]
    dsimp only
    rw [hread]
    show (do
      let (text, cs) ← basicLines? room cs
      return (c :: text, cs)) = _
    cases basicLines? room cs <;> rfl

/-- What is written of a character does not begin with a quote. -/
theorem exists_escape (c : Char) : ∃ d letters, escape c = d :: letters ∧ d ≠ '"' := by
  rcases escape_cases c with ⟨hescape, -, hquote, -⟩ | ⟨letter, letters, hescape, -⟩
  · exact ⟨c, [], hescape, hquote⟩
  · exact ⟨_, _, hescape, by decide⟩

/-- A basic text is read up to the quotes that close it, with the quotes at its end. -/
theorem basicLines?_escapeLines {rest : List Char} (hrest : rest.head? ≠ some '"')
    (cs : List Char) {run room : Nat} (hrun : run ≤ 2) (hroom : run + cs.length < room) :
    basicLines? room (List.replicate run '"' ++ (escapeLines run cs ++
      (List.replicate 3 '"' ++ rest))) = some (List.replicate run '"' ++ cs, rest) := by
  -- `run` counts the quotes that are read but may still turn out to be at the end
  induction cs generalizing run room with
  | nil =>
      obtain ⟨room, rfl⟩ := Nat.exists_eq_add_one_of_ne_zero (Nat.ne_zero_of_lt hroom)
      have hclosing := read_closing hrest readsQuotes_basicLines? hrun room
      rw [← List.replicate_append_replicate, List.append_assoc] at hclosing
      rw [List.append_nil]
      exact hclosing
  | cons c cs ih =>
      rw [List.length_cons] at hroom
      by_cases hmore : c = '"' ∧ run < 2
      · -- one more quote that may turn out to be at the end
        obtain ⟨rfl, hfew⟩ := hmore
        have hnext := @ih (run + 1) room (by omega) (by omega)
        simp only [List.replicate_succ', List.append_assoc, List.singleton_append] at hnext
        rw [escapeLines, if_pos rfl, if_pos hfew]
        exact hnext
      · -- the quotes so far are inside the text, and the count begins anew
        obtain ⟨room, rfl⟩ : ∃ r, room = r + 1 + run := ⟨room - 1 - run, by omega⟩
        have hafter := @ih 0 room (by omega) (by omega)
        rw [List.replicate_zero, List.nil_append, List.nil_append] at hafter
        by_cases hfeed : c = '\n'
        · subst hfeed
          exact read_piece [] readsQuotes_basicLines? hrun (by decide) (fun _ _ => rfl) hafter
        · have hwritten : escapeLines run (c :: cs) = escape c ++ escapeLines 0 cs := by
            rw [escapeLines]
            by_cases hc : c = '"'
            · subst hc
              rw [if_pos rfl, if_neg fun hfew => hmore ⟨rfl, hfew⟩]
              rfl
            · rw [if_neg hc, if_neg hfeed]
          obtain ⟨d, letters, hescape, hd⟩ := exists_escape c
          have hpiece := basicLines?_escape c
          rw [hwritten, List.append_assoc]
          rw [hescape] at hpiece ⊢
          exact read_piece letters readsQuotes_basicLines? hrun hd hpiece hafter

/-! ## Several lines between literal quotes -/

/-- A character that literal quotes can hold is one piece of a text. -/
theorem literalLines?_cons {c : Char} (hcontrol : isControl c = false) (hquote : c ≠ '\'')
    (room : Nat) (cs : List Char) : literalLines? (room + 1) (c :: cs) =
      (literalLines? room cs).map fun (text, rest) => (c :: text, rest) := by
  by_cases hfeed : c = '\n'
  · subst hfeed
    rfl
  · have hreturn : c ≠ '\r' := by
      rintro rfl
      exact absurd hcontrol (by decide)
    rw [literalLines?]
    · rw [dropLineEnd?_eq_none hfeed hreturn]
      dsimp only
      rw [if_pos (isLineChar_of_isControl_eq_false hcontrol hfeed)]
      rfl
    · exact hquote

/-- A literal text is read up to the quotes that close it, with the quotes at its end. -/
theorem literalLines?_append {rest : List Char} (hrest : rest.head? ≠ some '\'') {cs : List Char}
    (hcontrol : ∀ c ∈ cs, isControl c = false) {run room : Nat}
    (hrun : longestRun '\'' run cs ≤ 2) (hroom : run + cs.length < room) :
    literalLines? room (List.replicate run '\'' ++ (cs ++ (List.replicate 3 '\'' ++ rest))) =
      some (List.replicate run '\'' ++ cs, rest) := by
  induction cs generalizing run room with
  | nil =>
      obtain ⟨room, rfl⟩ := Nat.exists_eq_add_one_of_ne_zero (Nat.ne_zero_of_lt hroom)
      have hclosing := read_closing hrest readsQuotes_literalLines? hrun room
      rw [← List.replicate_append_replicate, List.append_assoc] at hclosing
      rw [List.append_nil]
      exact hclosing
  | cons c cs ih =>
      rw [List.length_cons] at hroom
      rw [longestRun] at hrun
      have hothers : ∀ c ∈ cs, isControl c = false :=
        fun c hc => hcontrol c (List.mem_cons_of_mem _ hc)
      by_cases hquote : c = '\''
      · -- one more quote that may turn out to be at the end
        subst hquote
        rw [if_pos rfl] at hrun
        have hnext := @ih hothers (run + 1) room hrun (by omega)
        simp only [List.replicate_succ', List.append_assoc, List.singleton_append] at hnext
        exact hnext
      · -- the quotes so far are inside the text, and the count begins anew
        rw [if_neg hquote] at hrun
        obtain ⟨room, rfl⟩ : ∃ r, room = r + 1 + run := ⟨room - 1 - run, by omega⟩
        have hafter := @ih hothers 0 room (by omega) (by omega)
        rw [List.replicate_zero, List.nil_append, List.nil_append] at hafter
        exact read_piece [] readsQuotes_literalLines? (by omega) hquote
          (literalLines?_cons (hcontrol c List.mem_cons_self) hquote) hafter

/-! ## All quotes -/

theorem length_le_flatMap_escape (cs : List Char) : cs.length ≤ (cs.flatMap escape).length := by
  induction cs with
  | nil => exact Nat.le_refl 0
  | cons c cs ih =>
      obtain ⟨d, letters, hescape, -⟩ := exists_escape c
      rw [List.flatMap_cons, List.length_append, hescape]
      simp only [List.length_cons]
      omega

theorem length_le_escapeLines (run : Nat) (cs : List Char) :
    cs.length ≤ (escapeLines run cs).length := by
  fun_induction escapeLines run cs with
  | case1 => exact Nat.le_refl 0
  | case2 run cs hfew ih => simpa using ih
  | case3 run cs hfew ih =>
      simp only [List.length_cons]
      omega
  | case4 run cs hquote ih => simpa using ih
  | case5 run c cs hquote hfeed ih =>
      obtain ⟨d, letters, hescape, -⟩ := exists_escape c
      rw [List.length_append, hescape]
      simp only [List.length_cons]
      omega

/-- Without three quotes in front a text is on one line. -/
theorem read?_eq_readLine? {cs : List Char} (hbasic : ∀ rest, cs ≠ '"' :: '"' :: '"' :: rest)
    (hliteral : ∀ rest, cs ≠ '\'' :: '\'' :: '\'' :: rest) : read? cs = readLine? cs := by
  unfold read?
  split
  · exact absurd rfl (hbasic _)
  · exact absurd rfl (hliteral _)
  · rfl

theorem read?_basic (cs : List Char) {rest : List Char} (hrest : NoQuote rest) :
    read? (basic cs ++ rest) = some (cs, rest) := by
  have hread : readLine? (basic cs ++ rest) = some (cs, rest) := by
    have hlength := length_le_flatMap_escape cs
    unfold basic
    rw [List.append_assoc, List.cons_append]
    exact basicLine?_flatMap_escape cs rest (by simp only [List.length_append]; omega)
  rw [read?_eq_readLine?, hread]
  · intro others heq
    cases cs with
    | nil =>
        have hrest' : rest = '"' :: others := by simpa [basic] using heq
        exact (hrest '"' (by rw [hrest']; rfl)).1 rfl
    | cons c cs =>
        obtain ⟨d, letters, hescape, hd⟩ := exists_escape c
        rw [basic, List.flatMap_cons, hescape] at heq
        exact hd (by simpa using (List.cons.inj (List.cons.inj heq).2).1)
  · intro others heq
    exact absurd (List.cons.inj heq).1 (by decide)

theorem read?_literal {cs : List Char} (h : ∀ c ∈ cs, isLineChar c = true ∧ c ≠ '\'')
    {rest : List Char} (hrest : NoQuote rest) : read? (literal cs ++ rest) = some (cs, rest) := by
  have hread : readLine? (literal cs ++ rest) = some (cs, rest) := by
    unfold literal
    rw [List.append_assoc]
    exact literalLine?_append h rest
  rw [read?_eq_readLine?, hread]
  · intro others heq
    exact absurd (List.cons.inj heq).1 (by decide)
  · intro others heq
    cases cs with
    | nil =>
        have hrest' : rest = '\'' :: others := by simpa [literal] using heq
        exact (hrest '\'' (by rw [hrest']; rfl)).2 rfl
    | cons c cs =>
        exact (h c List.mem_cons_self).2 (by simpa using (List.cons.inj (List.cons.inj heq).2).1)

/-- A text over several lines begins after its opening quotes and the line end behind them. -/
theorem exists_read?_openLines {shape : Shape} {body : List Char}
    (h : shape.hasLineFeed = false → dropLineEnd? body = none) :
    ∃ room, body.length < room ∧ read? (openLines '"' shape ++ body) = basicLines? room body ∧
      read? (openLines '\'' shape ++ body) = literalLines? room body := by
  unfold openLines
  cases hfeed : shape.hasLineFeed with
  | true => exact ⟨body.length + 2, by omega, rfl, rfl⟩
  | false =>
      have hfirst : dropFirstLineEnd body = body := by
        rw [dropFirstLineEnd, h hfeed]
        rfl
      refine ⟨body.length + 1, by omega, ?_, ?_⟩
      · show basicLines? (body.length + 1) (dropFirstLineEnd body) = _
        rw [hfirst]
      · show literalLines? (body.length + 1) (dropFirstLineEnd body) = _
        rw [hfirst]

theorem read?_basicLines (cs : List Char) {rest : List Char} (hrest : NoQuote rest) :
    read? (basicLines (.of cs) cs ++ rest) = some (cs, rest) := by
  have hhead : rest.head? ≠ some '"' := fun h => (hrest '"' h).1 rfl
  have hlength := length_le_escapeLines 0 cs
  -- a text without a line feed begins behind the quotes, and a line end there would be dropped
  have hfirst : (Shape.of cs).hasLineFeed = false →
      dropLineEnd? (escapeLines 0 cs ++ (List.replicate 3 '"' ++ rest)) = none := by
    intro hfeed
    have hnofeed : '\n' ∉ cs := by simpa [Shape.of] using hfeed
    cases cs with
    | nil => exact dropLineEnd?_eq_none (by decide) (by decide) _
    | cons c cs =>
        have hc : c ≠ '\n' := fun heq => hnofeed (by rw [heq]; exact List.mem_cons_self)
        by_cases hquote : c = '"'
        · subst hquote
          exact dropLineEnd?_eq_none (by decide) (by decide) _
        · rw [escapeLines, if_neg hquote, if_neg hc]
          rcases escape_cases c with ⟨hescape, -, -, -, hfeed, hreturn⟩ | ⟨_, _, hescape, -⟩
          · rw [hescape]
            exact dropLineEnd?_eq_none hfeed hreturn _
          · rw [hescape]
            exact dropLineEnd?_eq_none (by decide) (by decide) _
  obtain ⟨room, hroom, hread, -⟩ := exists_read?_openLines hfirst
  rw [List.length_append] at hroom
  unfold basicLines
  rw [List.append_assoc, List.append_assoc, hread]
  exact basicLines?_escapeLines hhead cs (Nat.zero_le 2) (by omega)

theorem read?_literalLines {cs : List Char} (hcontrol : ∀ c ∈ cs, isControl c = false)
    (hrun : longestRun '\'' 0 cs ≤ 2) {rest : List Char} (hrest : NoQuote rest) :
    read? (literalLines (.of cs) cs ++ rest) = some (cs, rest) := by
  have hhead : rest.head? ≠ some '\'' := fun h => (hrest '\'' h).2 rfl
  have hfirst : (Shape.of cs).hasLineFeed = false →
      dropLineEnd? (cs ++ (List.replicate 3 '\'' ++ rest)) = none := by
    intro hfeed
    have hnofeed : '\n' ∉ cs := by simpa [Shape.of] using hfeed
    cases cs with
    | nil => exact dropLineEnd?_eq_none (by decide) (by decide) _
    | cons c cs =>
        refine dropLineEnd?_eq_none (fun heq => hnofeed ?_) (fun heq => ?_) _
        · rw [heq]
          exact List.mem_cons_self
        · exact absurd (heq ▸ hcontrol c List.mem_cons_self) (by decide)
  obtain ⟨room, hroom, -, hread⟩ := exists_read?_openLines hfirst
  rw [List.length_append] at hroom
  unfold literalLines
  rw [List.append_assoc, List.append_assoc, hread]
  exact literalLines?_append hhead hcontrol hrun (by omega)

/-- A text whose longest run of quotes is empty has none. -/
theorem not_mem_of_longestRun_eq_zero {quote : Char} {cs : List Char} {run : Nat}
    (h : longestRun quote run cs = 0) : run = 0 ∧ quote ∉ cs := by
  induction cs generalizing run with
  | nil => exact ⟨h, List.not_mem_nil⟩
  | cons c cs ih =>
      rw [longestRun] at h
      by_cases hc : c = quote
      · rw [if_pos hc] at h
        exact absurd (ih h).1 (by omega)
      · rw [if_neg hc] at h
        obtain ⟨-, hmem⟩ := @ih 0 (by omega)
        refine ⟨by omega, fun hquote => ?_⟩
        rcases List.mem_cons.mp hquote with heq | hquote
        · exact hc heq.symm
        · exact hmem hquote

theorem isControl_eq_false_of_shape {cs : List Char} (h : (Shape.of cs).hasControl = false) :
    ∀ c ∈ cs, isControl c = false := by
  intro c hc
  simpa using List.any_eq_false.mp h c hc

/-- A text in quotes is read as it was, if no further quote follows. -/
theorem read?_quote (text : String) {rest : List Char} (hrest : NoQuote rest) :
    read? (quote text ++ rest) = some (text.toList, rest) := by
  unfold quote
  dsimp only
  split
  · exact read?_basic _ hrest
  split
  · next h =>
    -- literal quotes on one line
    simp only [Bool.and_eq_true, Bool.not_eq_true', decide_eq_true_eq] at h
    obtain ⟨⟨hcontrol, hrun⟩, hfeed⟩ := h
    refine read?_literal (fun c hc => ⟨?_, fun heq => ?_⟩) hrest
    · refine isLineChar_of_isControl_eq_false (isControl_eq_false_of_shape hcontrol c hc) ?_
      rintro rfl
      have hnofeed : '\n' ∉ text.toList := by simpa [Shape.of] using hfeed
      exact hnofeed hc
    · exact (not_mem_of_longestRun_eq_zero hrun).2 (heq ▸ hc)
  split
  · exact read?_basicLines _ hrest
  split
  · next h =>
    simp only [Bool.and_eq_true, Bool.not_eq_true', decide_eq_true_eq] at h
    exact read?_literalLines (isControl_eq_false_of_shape h.1) h.2 hrest
  split
  · exact read?_basicLines _ hrest
  · exact read?_basic _ hrest

end Relock.Toml.Quoted

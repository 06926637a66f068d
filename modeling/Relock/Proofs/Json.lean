import Mathlib.Data.List.Basic
import Relock.Json.Reader
import Relock.Text.Blank

/-!
# JSON that is written reads back

What `Json.compact` writes, `Json.parse?` reads as the same value (`Json.parse?_compact`), so that a
text stands for one value only (`Json.compact_injective`). This holds for values without numbers
whose texts consist of characters, `Json.Spelled`.

* A quoted text ends where it was closed, whatever it holds: every character is written as one piece
  that is read as this character (`Token.exists_piece`), and no piece is a quote.
* `Json.Reads` says what it takes to read a value wherever a value may stand: its text is cut into
  tokens, and the tokens complete it. Both are shown together by induction on the value
  (`Spelled.reads`).
-/

namespace Relock.Json

/-! ## Quoted texts -/

namespace Token

theorem hexValue?_hexDigit (n : Nat) : Text.hexValue? (hexDigit n) = some (n % 16) := by
  have hdigit : ∀ m < 16, Text.hexValue? (Nat.digitChar m) = some m := by decide
  exact hdigit (n % 16) (Nat.mod_lt _ (by decide))

/-- A code unit below the surrogates is a character by itself. -/
theorem characters?_unit {n : Nat} (h : n < 0xD800) (pieces : List Piece) :
    characters? (.unit n :: pieces) = (characters? pieces).map (Char.ofNat n :: ·) := by
  have hhigh : ¬ (0xD800 ≤ n ∧ n < 0xDC00) := by omega
  have hlow : ¬ (0xDC00 ≤ n ∧ n < 0xE000) := by omega
  have hsurrogate : ¬ (0xD800 ≤ n ∧ n < 0xE000) := by omega
  rcases pieces with _ | ⟨_ | low, pieces⟩
  · simp only [characters?, if_neg hsurrogate]
  · simp only [characters?, if_neg hsurrogate]
  · rw [characters?, if_neg hhigh, if_neg hlow]

/-- An escape of a single letter is read as its character. -/
theorem pieces?_shortEscape {letter c : Char} (hletter : shortEscape? letter = some c)
    (cs : List Char) : pieces? ('\\' :: letter :: cs) =
      (pieces? cs).map fun read => (.char c :: read.1, read.2) := by
  have hne : letter ≠ 'u' := by
    rintro rfl
    exact absurd hletter (by simp [shortEscape?])
  rw [pieces?.eq_def]
  cases hrest : pieces? cs <;> simp [hne, hletter, hrest]

/-- A character that is not escaped is read as itself. -/
theorem pieces?_plain {c : Char} (hquote : c ≠ '"') (hbackslash : c ≠ '\\')
    (hplain : ¬ c.toNat < 0x20) (cs : List Char) :
    pieces? (c :: cs) = (pieces? cs).map fun read => (.char c :: read.1, read.2) := by
  rw [pieces?.eq_def]
  split
  · next heq => exact absurd heq (by simp)
  · next heq => exact absurd (List.cons.inj heq).1 hquote
  · next heq => exact absurd (List.cons.inj heq).1 hbackslash
  · next heq => exact absurd (List.cons.inj heq).1 hbackslash
  · next heq =>
    obtain ⟨rfl, rfl⟩ := List.cons.inj heq
    rw [if_neg hplain]
    cases pieces? cs <;> rfl

/-- A character inside quotes is written as one piece, which is read as this character. -/
theorem exists_piece (c : Char) :
    ∃ piece, (∀ cs, pieces? (escape c ++ cs) =
        (pieces? cs).map fun read => (piece :: read.1, read.2)) ∧
      ∀ pieces, characters? (piece :: pieces) = (characters? pieces).map (c :: ·) := by
  unfold escape
  split
  case h_8 hquote hbackslash _ _ _ _ _ =>
    split
    · next hcontrol =>
      -- a control character without a short escape is written as a code unit
      refine ⟨.unit c.toNat, fun cs => ?_, fun pieces => ?_⟩
      · have hunit : codeUnit? ['0', '0', hexDigit (c.toNat / 16), hexDigit c.toNat] =
            some (c.toNat, []) := by
          have hzero : Text.hexValue? '0' = some 0 := by decide
          have hvalue : ((0 * 16 + 0) * 16 + c.toNat / 16 % 16) * 16 + c.toNat % 16 = c.toNat := by
            omega
          simp only [codeUnit?, hzero, hexValue?_hexDigit, Option.bind_eq_bind, Option.bind_some,
            hvalue]
          rfl
        simp only [List.cons_append, List.nil_append, pieces?, hunit, Option.bind_eq_bind,
          Option.bind_some]
        cases pieces? cs <;> rfl
      · rw [characters?_unit (by omega), Char.ofNat_toNat]
    · next hplain =>
      refine ⟨.char c, fun cs => ?_, fun _ => rfl⟩
      exact pieces?_plain hquote hbackslash hplain cs
  all_goals exact ⟨.char _, fun cs => pieces?_shortEscape rfl cs, fun _ => rfl⟩

/-- What stands inside quotes is read as it was, up to the closing quote. -/
theorem exists_pieces? (cs rest : List Char) :
    ∃ pieces, pieces? (cs.flatMap escape ++ '"' :: rest) = some (pieces, rest) ∧
      characters? pieces = some cs := by
  induction cs with
  | nil => exact ⟨[], rfl, rfl⟩
  | cons c cs ih =>
      obtain ⟨piece, hread, hcharacter⟩ := exists_piece c
      obtain ⟨pieces, hreads, hcharacters⟩ := ih
      refine ⟨piece :: pieces, ?_, ?_⟩
      · rw [List.flatMap_cons, List.append_assoc, hread, hreads]
        rfl
      · rw [hcharacter, hcharacters]
        rfl

/-- A quoted text is one token. -/
theorem scan?_quote (s : String) (rest : List Char) :
    scan? (quote s ++ rest) = (scan? rest).map (quoted (some s) :: ·) := by
  obtain ⟨pieces, hread, hcharacters⟩ := exists_pieces? s.toList rest
  have htext : quotedText pieces = some s := by
    rw [quotedText, hcharacters, Option.map_some, String.ofList_toList]
  have hquote : quote s ++ rest = '"' :: (s.toList.flatMap escape ++ '"' :: rest) := by
    simp [quote]
  rw [hquote, scan?, if_neg (by decide), if_pos rfl]
  split
  · next heq =>
    rw [hread] at heq
    cases heq
    rw [htext]
  · next heq =>
    rw [hread] at heq
    exact absurd heq (by simp)

/-! ## Other tokens -/

theorem scan?_punctuation {c : Char} {token : Token} (h : punctuation? c = some token)
    (rest : List Char) : scan? (c :: rest) = (scan? rest).map (token :: ·) := by
  have hother : isSpace c = false ∧ c ≠ '"' ∧ isNumberChar c = false ∧ c.isAlpha = false := by
    unfold punctuation? at h
    split at h <;> first | decide | exact absurd h (by simp)
  obtain ⟨hspace, hquote, hnumber, halpha⟩ := hother
  rw [scan?, hspace, if_neg (by decide), if_neg hquote, hnumber, halpha, h]
  rfl

/-- What may follow a value: nothing, or a character that is no letter. -/
def NoLetter (rest : List Char) : Prop :=
  ∀ c ∈ rest.head?, c.isAlpha = false

theorem noLetter_cons {c : Char} (h : c.isAlpha = false) (rest : List Char) :
    NoLetter (c :: rest) := by
  intro d hd
  obtain rfl : c = d := by simpa using hd
  exact h

theorem NoLetter.append {more rest : List Char} (hmore : NoLetter more) (hrest : NoLetter rest) :
    NoLetter (more ++ rest) := by
  cases more with
  | nil => exact hrest
  | cons c cs => exact noLetter_cons (hmore c rfl) (cs ++ rest)

/-- Before anything that may follow a value, the text is cut into the tokens. -/
def Scans (text : List Char) (tokens : List Token) : Prop :=
  ∀ rest, NoLetter rest → scan? (text ++ rest) = (scan? rest).map (tokens ++ ·)

theorem Scans.nil : Scans [] [] := by
  intro rest _
  simp

/-- A text goes on with another one that does not begin with a letter. -/
theorem Scans.append {text more : List Char} {tokens others : List Token}
    (h : Scans text tokens) (hmore : Scans more others) (hend : NoLetter more) :
    Scans (text ++ more) (tokens ++ others) := by
  intro rest hrest
  rw [List.append_assoc, h _ (hend.append hrest), hmore rest hrest, Option.map_map]
  congr 1
  funext read
  exact (List.append_assoc tokens others read).symm

theorem Scans.punctuation {c : Char} {token : Token} (h : punctuation? c = some token)
    {more : List Char} {others : List Token} (hmore : Scans more others) :
    Scans (c :: more) (token :: others) := by
  intro rest hrest
  rw [List.cons_append, scan?_punctuation h, hmore rest hrest, Option.map_map]
  rfl

theorem Scans.quote (s : String) : Scans (quote s) [quoted (some s)] :=
  fun rest _ => scan?_quote s rest

/-- A word of letters is one token. -/
theorem Scans.word {c : Char} {letters : List Char} {value : Json}
    (hletters : (c :: letters).all (·.isAlpha) = true) (h : word? (c :: letters) = some value) :
    Scans (c :: letters) [plain value] := by
  intro rest hrest
  obtain ⟨hc, hothers⟩ := List.forall_mem_cons.mp (List.all_eq_true.mp hletters)
  have hspace : isSpace c = false := by
    by_contra hspace
    simp only [isSpace, Bool.not_eq_false, Bool.or_eq_true, beq_iff_eq] at hspace
    rcases hspace with ((rfl | rfl) | rfl) | rfl <;> exact absurd hc (by decide)
  have hquote : c ≠ '"' := by
    rintro rfl
    exact absurd hc (by decide)
  obtain ⟨htake, hdrop⟩ := Text.takeWhile_dropWhile_append hothers hrest
  rw [List.cons_append, scan?, hspace, if_neg (by decide), if_neg hquote, hc, if_neg (by simp),
    if_pos rfl, htake, hdrop, h]
  rfl

end Token

/-! ## Values -/

open Token

/-- A value without numbers whose texts consist of characters. -/
inductive Spelled : Json → Prop
  | null : Spelled null
  | bool (value : Bool) : Spelled (bool value)
  | text (s : String) : Spelled (text s)
  | array (items : List Json) (hitems : ∀ item ∈ items, Spelled item) : Spelled (array items)
  | record (members : List (String × Json)) (hmembers : ∀ member ∈ members, Spelled member.2) :
      Spelled (record members)

/-- Wherever a value may stand, the text of `v` is read as `v`. -/
def Reads (v : Json) : Prop :=
  ∃ tokens, Scans v.compact tokens ∧
    ∀ opened mayClose, tokens.foldlM Reading.next? ⟨opened, .value mayClose⟩ =
      some (Reading.complete opened v)

/-! ### Arrays -/

theorem compactItems_cons (item : Json) (items : List Json) :
    compactItems (item :: items) = item.compact ++ items.flatMap (',' :: ·.compact) := by
  induction items generalizing item with
  | nil => simp [compactItems]
  | cons other items ih => simp [compactItems, ih]

/-- What follows the first item of an array does not begin with a letter. -/
theorem noLetter_items (items : List Json) : NoLetter (items.flatMap (',' :: ·.compact)) := by
  cases items with
  | nil => simp [NoLetter]
  | cons item items => exact noLetter_cons (by decide) _

/-- The items of an array after the first one. -/
theorem exists_tokens_items {items : List Json} (h : ∀ item ∈ items, item.Reads) :
    ∃ tokens, Scans (items.flatMap (',' :: ·.compact)) tokens ∧
      ∀ opened read, tokens.foldlM Reading.next? ⟨.array read :: opened, .separator⟩ =
        some ⟨.array (items.reverse ++ read) :: opened, .separator⟩ := by
  induction items with
  | nil => exact ⟨[], .nil, fun opened read => rfl⟩
  | cons item items ih =>
      obtain ⟨hitem, hitems⟩ := List.forall_mem_cons.mp h
      obtain ⟨tokens, hscan, hread⟩ := hitem
      obtain ⟨others, hscans, hreads⟩ := ih hitems
      refine ⟨.comma :: (tokens ++ others), ?_, ?_⟩
      · rw [List.flatMap_cons, List.cons_append]
        exact .punctuation rfl (hscan.append hscans (noLetter_items items))
      · intro opened read
        show (tokens ++ others).foldlM Reading.next? ⟨.array read :: opened, .value false⟩ = _
        rw [List.foldlM_append, hread, Option.bind_eq_bind, Option.bind_some, Reading.complete,
          hreads, List.reverse_cons, List.append_assoc, List.singleton_append]

theorem reads_array {items : List Json} (h : ∀ item ∈ items, item.Reads) : (array items).Reads := by
  cases items with
  | nil =>
      refine ⟨[.openArray, .closeArray], .punctuation rfl (.punctuation rfl .nil), ?_⟩
      intro opened mayClose
      cases mayClose <;> rfl
  | cons item items =>
      obtain ⟨hitem, hitems⟩ := List.forall_mem_cons.mp h
      obtain ⟨tokens, hscan, hread⟩ := hitem
      obtain ⟨others, hscans, hreads⟩ := exists_tokens_items hitems
      refine ⟨openArray :: (tokens ++ (others ++ [closeArray])), ?_, ?_⟩
      · have hclose : Scans [']'] [closeArray] := .punctuation rfl .nil
        rw [compact, compactItems_cons, List.cons_append, List.append_assoc]
        apply Scans.punctuation rfl
        apply hscan.append
        · exact hscans.append hclose (noLetter_cons (by decide) _)
        · exact (noLetter_items items).append (noLetter_cons (by decide) _)
      · intro opened mayClose
        -- a list may stand wherever a value may, also where another list could end
        have hopen : (openArray :: (tokens ++ (others ++ [closeArray]))).foldlM Reading.next?
            ⟨opened, .value mayClose⟩ =
            (tokens ++ (others ++ [closeArray])).foldlM Reading.next?
              ⟨.array [] :: opened, .value true⟩ := by
          cases mayClose <;> rfl
        rw [hopen, List.foldlM_append, hread, Option.bind_eq_bind, Option.bind_some,
          Reading.complete, List.foldlM_append, hreads, Option.bind_eq_bind, Option.bind_some]
        show some (Reading.complete opened (.array (items.reverse ++ [item]).reverse)) = _
        rw [List.reverse_append, List.reverse_reverse]
        rfl

/-! ### Objects -/

def memberText (member : String × Json) : List Char :=
  quote member.1 ++ ':' :: member.2.compact

theorem compact_record_cons (member : String × Json) (members : List (String × Json)) :
    (record (member :: members)).compact =
      '{' :: (memberText member ++ (members.flatMap (',' :: memberText ·) ++ ['}'])) := by
  have hmembers : compactMembers ((member :: members).map fun m => (some m.1, m.2)) =
      memberText member ++ members.flatMap (',' :: memberText ·) := by
    induction members generalizing member with
    | nil => simp [compactMembers, memberText]
    | cons other members ih =>
        have hothers := ih other
        rw [List.map_cons] at hothers
        rw [List.map_cons, List.map_cons, compactMembers, hothers]
        · simp [memberText]
        · simp
  rw [← List.append_assoc, ← hmembers]
  rfl

/-- What follows the first member of an object does not begin with a letter. -/
theorem noLetter_members (members : List (String × Json)) :
    NoLetter (members.flatMap (',' :: memberText ·)) := by
  cases members with
  | nil => simp [NoLetter]
  | cons member members => exact noLetter_cons (by decide) _

/-- A member where a name may stand. -/
theorem exists_tokens_member {member : String × Json} (h : member.2.Reads) :
    ∃ tokens, Scans (memberText member) tokens ∧
      ∀ opened read name mayClose,
        tokens.foldlM Reading.next? ⟨.object read name :: opened, .name mayClose⟩ =
          some ⟨.object ((some member.1, member.2) :: read) (some member.1) :: opened,
            .separator⟩ := by
  obtain ⟨tokens, hscan, hread⟩ := h
  refine ⟨quoted (some member.1) :: colon :: tokens, ?_, ?_⟩
  · have hvalue : Scans (':' :: member.2.compact) (colon :: tokens) := .punctuation rfl hscan
    exact (Scans.quote member.1).append hvalue (noLetter_cons (by decide) _)
  · intro opened read name mayClose
    have hname : (quoted (some member.1) :: colon :: tokens).foldlM Reading.next?
        ⟨.object read name :: opened, .name mayClose⟩ =
        tokens.foldlM Reading.next? ⟨.object read (some member.1) :: opened, .value false⟩ := by
      cases mayClose <;> rfl
    rw [hname, hread]
    rfl

/-- The members of an object after the first one. -/
theorem exists_tokens_members {members : List (String × Json)}
    (h : ∀ member ∈ members, member.2.Reads) :
    ∃ tokens, Scans (members.flatMap (',' :: memberText ·)) tokens ∧
      ∀ opened read name, ∃ last,
        tokens.foldlM Reading.next? ⟨.object read name :: opened, .separator⟩ =
          some ⟨.object ((members.map fun m => (some m.1, m.2)).reverse ++ read) last :: opened,
            .separator⟩ := by
  induction members with
  | nil => exact ⟨[], .nil, fun opened read name => ⟨name, rfl⟩⟩
  | cons member members ih =>
      obtain ⟨hmember, hmembers⟩ := List.forall_mem_cons.mp h
      obtain ⟨tokens, hscan, hread⟩ := exists_tokens_member hmember
      obtain ⟨others, hscans, hreads⟩ := ih hmembers
      refine ⟨.comma :: (tokens ++ others), ?_, ?_⟩
      · rw [List.flatMap_cons, List.cons_append]
        exact .punctuation rfl (hscan.append hscans (noLetter_members members))
      · intro opened read name
        obtain ⟨last, hlast⟩ := hreads opened ((some member.1, member.2) :: read) (some member.1)
        refine ⟨last, ?_⟩
        show (tokens ++ others).foldlM Reading.next? ⟨.object read name :: opened, .name false⟩ = _
        rw [List.foldlM_append, hread, Option.bind_eq_bind, Option.bind_some, hlast, List.map_cons,
          List.reverse_cons, List.append_assoc, List.singleton_append]

theorem reads_record {members : List (String × Json)} (h : ∀ member ∈ members, member.2.Reads) :
    (record members).Reads := by
  cases members with
  | nil =>
      refine ⟨[openObject, closeObject], .punctuation rfl (.punctuation rfl .nil), ?_⟩
      intro opened mayClose
      cases mayClose <;> rfl
  | cons member members =>
      obtain ⟨hmember, hmembers⟩ := List.forall_mem_cons.mp h
      obtain ⟨tokens, hscan, hread⟩ := exists_tokens_member hmember
      obtain ⟨others, hscans, hreads⟩ := exists_tokens_members hmembers
      refine ⟨openObject :: (tokens ++ (others ++ [closeObject])), ?_, ?_⟩
      · have hclose : Scans ['}'] [closeObject] := .punctuation rfl .nil
        rw [compact_record_cons]
        apply Scans.punctuation rfl
        apply hscan.append
        · exact hscans.append hclose (noLetter_cons (by decide) _)
        · exact (noLetter_members members).append (noLetter_cons (by decide) _)
      · intro opened mayClose
        -- a record may stand wherever a value may, also where a list could end
        have hopen : (openObject :: (tokens ++ (others ++ [closeObject]))).foldlM Reading.next?
            ⟨opened, .value mayClose⟩ =
            (tokens ++ (others ++ [closeObject])).foldlM Reading.next?
              ⟨.object [] none :: opened, .name true⟩ := by
          cases mayClose <;> rfl
        obtain ⟨last, hlast⟩ := hreads opened [(some member.1, member.2)] (some member.1)
        rw [hopen, List.foldlM_append, hread, Option.bind_eq_bind, Option.bind_some,
          List.foldlM_append, hlast, Option.bind_eq_bind, Option.bind_some]
        show some (Reading.complete opened (.object
          ((members.map fun m => (some m.1, m.2)).reverse ++ [(some member.1, member.2)]).reverse)) =
            _
        rw [List.reverse_append, List.reverse_reverse]
        rfl

/-! ### All values -/

theorem Spelled.reads {v : Json} (h : v.Spelled) : v.Reads := by
  induction h with
  | null =>
      refine ⟨[plain Json.null], .word (by decide) rfl, ?_⟩
      intro opened mayClose
      cases mayClose <;> rfl
  | bool value =>
      refine ⟨[plain (Json.bool value)], ?_, ?_⟩
      · cases value <;> exact .word (by decide) rfl
      · intro opened mayClose
        cases mayClose <;> rfl
  | text s =>
      refine ⟨[quoted (some s)], .quote s, ?_⟩
      intro opened mayClose
      cases mayClose <;> rfl
  | array items _ ih => exact reads_array ih
  | record members _ ih => exact reads_record ih

/-- A value is read back from its text. -/
theorem parse?_compact {v : Json} (h : v.Spelled) : parse? (String.ofList v.compact) = some v := by
  obtain ⟨tokens, hscan, hread⟩ := h.reads
  have hend : scan? v.compact = some tokens := by
    have hall := hscan [] (by simp [NoLetter])
    have hnil : scan? [] = some [] := by rw [scan?]
    rw [List.append_nil, hnil, Option.map_some, List.append_nil] at hall
    exact hall
  have hvalue : tokens.foldlM Reading.next? .start = some ⟨[], .nothing v⟩ := hread [] false
  unfold parse?
  rw [String.toList_ofList, hend]
  simp only [Option.bind_eq_bind, Option.bind_some, hvalue]

/-- No two values have the same text. -/
theorem compact_injective {v w : Json} (hv : v.Spelled) (hw : w.Spelled)
    (h : v.compact = w.compact) : v = w := by
  have hread := parse?_compact hv
  rw [h, parse?_compact hw] at hread
  exact (Option.some.inj hread).symm

end Relock.Json

import Mathlib.Data.Option.Basic
import TypeAtlas.Json.Reader

/-!
# Text that is written can be read

A value is *faithful* if its text determines it: its numbers are natural numbers of at most 64 bits, and all of it denotes
something (`Json.Faithful`).  The text of a faithful value is read as that very value (`Json.parse?_render`), however deep
it is and whatever its strings hold.

The argument goes through the tokens of a value (`Json.tokens`).

* The scanner finds them in the text (`Json.scan_text`).  A number or a word ends only at the character after it, so what
  is said of the scanner is not where it stands, but what it is ready for (`Scanner.Through`).
* The reader makes the value out of them (`Json.read_tokens`), whatever is open around it.
-/

namespace TypeAtlas

/-- Two runs over a text, one after the other. -/
theorem foldlM_append_of_eq_some {α β : Type} {f : β → α → Option β} {s t : β} {as : List α}
    (h : as.foldlM f s = some t) (bs : List α) : (as ++ bs).foldlM f s = bs.foldlM f t := by
  rw [List.foldlM_append, h]
  rfl

/-- What is decoded from each of some values is decoded from all of them. -/
theorem mapM_map_eq_some_map {α β γ : Type} {decode : β → Option γ} {encode : α → β} {f : α → γ} :
    ∀ {as : List α}, (∀ a ∈ as, decode (encode a) = some (f a)) → (as.map encode).mapM decode = some (as.map f)
  | [], _ => rfl
  | a :: as, h => by
    rw [List.map_cons, List.mapM_cons, h a List.mem_cons_self,
      mapM_map_eq_some_map fun b hb => h b (List.mem_cons_of_mem a hb)]
    rfl

/-- Decoding undoes encoding for a list if it does for each of its values. -/
theorem mapM_map_eq_some {α β : Type} {decode : β → Option α} {encode : α → β} {as : List α}
    (h : ∀ a ∈ as, decode (encode a) = some a) : (as.map encode).mapM decode = some as := by
  rw [mapM_map_eq_some_map h, List.map_id']

namespace Json

/-! ## Faithful values and their tokens -/

mutual

/-- Whether the text of a value determines it. -/
def Faithful : Json → Prop
  | nat n => n < UInt64.size
  | numeral _ => False
  | arr items => ItemsFaithful items
  | obj members => MembersFaithful members
  | unreadable => False
  | _ => True

/-- Whether all items are faithful. -/
def ItemsFaithful : List Json → Prop
  | [] => True
  | j :: js => Faithful j ∧ ItemsFaithful js

/-- Whether all members are faithful. -/
def MembersFaithful : List (String × Json) → Prop
  | [] => True
  | (_, j) :: ms => Faithful j ∧ MembersFaithful ms

end

mutual

/-- The tokens of a value. -/
def tokens : Json → List Token
  | null => [.null]
  | bool b => [.bool b]
  | nat n => [.number (.nat n)]
  | numeral t => [.number (.numeral t)]
  | str s => [.text (some s)]
  | arr [] => [.leftBracket, .rightBracket]
  | arr (j :: js) => .leftBracket :: (j.tokens ++ itemsTokens js)
  | obj [] => [.leftBrace, .rightBrace]
  | obj ((k, j) :: ms) => .leftBrace :: .text (some k) :: .colon :: (j.tokens ++ membersTokens ms)
  | unreadable => [.null]

/-- The tokens of the items after the first one, and the closing bracket. -/
def itemsTokens : List Json → List Token
  | [] => [.rightBracket]
  | j :: js => .comma :: (j.tokens ++ itemsTokens js)

/-- The tokens of the members after the first one, and the closing brace. -/
def membersTokens : List (String × Json) → List Token
  | [] => [.rightBrace]
  | (k, j) :: ms => .comma :: .text (some k) :: .colon :: (j.tokens ++ membersTokens ms)

end

/-! ## Strings -/

namespace Piece

/-- The piece that a character is scanned as, once it is written. -/
def ofChar (c : Char) : Piece :=
  if c.toNat < 0x20 ∧ c ∉ ['\x08', '\t', '\n', '\x0c', '\r'] then unit c.toNat else char c

/-- A unit that is no surrogate is a character of its own. -/
theorem assemble_unit {n : Nat} (hlead : isLead n = false) (htrail : isTrail n = false) (ps : List Piece) :
    assemble (unit n :: ps) = (assemble ps).map (Char.ofNat n :: ·) := by
  cases ps with
  | nil => simp [assemble, hlead, htrail]
  | cons p ps => cases p <;> simp [assemble, hlead, htrail, Function.comp_def]

/-- **The pieces of written characters spell these characters.** -/
theorem assemble_map_ofChar (cs : List Char) : assemble (cs.map ofChar) = some cs := by
  induction cs with
  | nil => rfl
  | cons c cs ih =>
    rw [List.map_cons, ofChar]
    split
    case isTrue h =>
      have hlead : isLead c.toNat = false := by simp only [isLead, Bool.and_eq_false_iff, decide_eq_false_iff_not]; omega
      have htrail : isTrail c.toNat = false := by
        simp only [isTrail, Bool.and_eq_false_iff, decide_eq_false_iff_not]; omega
      rw [assemble_unit hlead htrail, ih, Option.map_some, Char.ofNat_toNat]
    case isFalse => rw [assemble, ih, Option.map_some]

end Piece

theorem hexDigit?_digitChar : ∀ d < 16, hexDigit? (Nat.digitChar d) = some d := by decide

/-- **A written character is scanned as one piece.** -/
theorem scan_escape (c : Char) (ps : List Piece) (ts : List Token) :
    (escape c).foldlM Scanner.step ⟨.text ps, ts⟩ = some ⟨.text (.ofChar c :: ps), ts⟩ := by
  by_cases hshort : c ∈ ['"', '\\', '\x08', '\t', '\n', '\x0c', '\r']
  · simp only [List.mem_cons, List.not_mem_nil, or_false] at hshort
    rcases hshort with rfl | rfl | rfl | rfl | rfl | rfl | rfl <;> rfl
  · simp only [List.mem_cons, List.not_mem_nil, or_false, not_or] at hshort
    obtain ⟨hquote, hslash, h8, h9, h10, h12, h13⟩ := hshort
    rw [escape, if_neg hquote, if_neg hslash, if_neg h8, if_neg h9, if_neg h10, if_neg h12, if_neg h13]
    split
    case isTrue hcontrol =>
      -- The four digits of the escape give the number of the character.
      have hofChar : Piece.ofChar c = .unit c.toNat := if_pos ⟨hcontrol, by simp [h8, h9, h10, h12, h13]⟩
      have hhigh := hexDigit?_digitChar (c.toNat / 16) (by omega)
      have hlow := hexDigit?_digitChar (c.toNat % 16) (by omega)
      have hvalue : c.toNat / 16 * 16 + c.toNat % 16 = c.toNat := by omega
      have hzero : hexDigit? '0' = some 0 := rfl
      simp [hexPair, Scanner.step, hzero, hhigh, hlow, hvalue, hofChar]
    case isFalse hcontrol =>
      have hofChar : Piece.ofChar c = .char c := if_neg fun h => hcontrol h.1
      simp [Scanner.step, hquote, hslash, hcontrol, hofChar]

/-- **A written string is scanned as this string.** -/
theorem scan_quote (s : String) (ts : List Token) :
    (quote s).foldlM Scanner.step ⟨.between, ts⟩ = some ⟨.between, .text (some s) :: ts⟩ := by
  have hchars : ∀ (cs : List Char) (ps : List Piece), (cs.flatMap escape).foldlM Scanner.step ⟨.text ps, ts⟩ =
      some ⟨.text ((cs.map Piece.ofChar).reverse ++ ps), ts⟩ := by
    intro cs
    induction cs with
    | nil => exact fun ps => rfl
    | cons c cs ih =>
      intro ps
      rw [List.flatMap_cons, foldlM_append_of_eq_some (scan_escape c ps ts), ih]
      simp
  have hopen : Scanner.step ⟨.between, ts⟩ '"' = some ⟨.text [], ts⟩ := rfl
  have hclose : ∀ ps, Scanner.step ⟨.text ps, ts⟩ '"' =
      some ⟨.between, .text ((Piece.assemble ps.reverse).map String.ofList) :: ts⟩ := fun ps => rfl
  rw [quote, List.cons_append, List.foldlM_cons, hopen]
  change ((s.toList.flatMap escape) ++ ['"']).foldlM Scanner.step ⟨.text [], ts⟩ = _
  rw [foldlM_append_of_eq_some (hchars s.toList []), List.foldlM_cons, hclose, List.append_nil, List.reverse_reverse,
    Piece.assemble_map_ofChar, Option.map_some, String.ofList_toList]
  rfl

/-! ## Numbers -/

end Json

namespace Numeral

/-- The value of digits that come after a number. -/
def extend (n : Nat) (ds : List Nat) : Nat := ds.foldl (fun n d => n * 10 + d) n

theorem le_extend (n : Nat) (ds : List Nat) : n ≤ extend n ds := by
  induction ds generalizing n with
  | nil => exact Nat.le_refl n
  | cons d ds ih =>
    have hstep : n ≤ n * 10 + d := by omega
    exact Nat.le_trans hstep (ih (n * 10 + d))

/-- Digits are read on as long as the value fits into 64 bits. -/
theorem absorb_of_lt {n : Nat} {ds : List Nat} (h : extend n ds < UInt64.size) :
    absorb n ds = (extend n ds, ds.length) := by
  induction ds generalizing n with
  | nil => rfl
  | cons d ds ih =>
    have hfits : n * 10 + d < Nat.pow 2 64 := Nat.lt_of_le_of_lt (le_extend (n * 10 + d) ds) h
    rw [absorb, if_pos hfits, ih h]
    rfl

theorem nearest53_le (n : Nat) : nearest53 n ≤ 2 * n := by
  unfold nearest53
  split
  · omega
  case isFalse h =>
    have hn : n ≠ 0 := by
      rintro rfl
      exact h (by decide)
    have hunit : Nat.pow 2 (n.log2 - 52) ≤ n :=
      Nat.le_trans (Nat.pow_le_pow_right (by decide) (Nat.sub_le _ _)) (Nat.log2_self_le hn)
    have hdiv := Nat.div_mul_le_self n (Nat.pow 2 (n.log2 - 52))
    dsimp only
    split
    · rw [Nat.add_mul, Nat.one_mul]
      omega
    · omega

/-- A number of 64 bits is in the range of doubles. -/
theorem inRange_of_lt {n : Nat} (h : n < UInt64.size) : inRange n 0 = true := by
  have hbound : 2 * UInt64.size < overflow := by decide +kernel
  have hone : nearest53 (Nat.pow 10 (0 : Int).toNat) = 1 := rfl
  have hn := nearest53_le n
  simp only [inRange, hone, Bool.or_eq_true, Bool.and_eq_true, decide_eq_true_eq]
  exact .inr ⟨by decide, by omega⟩

section Digits

variable (n : Nat)

theorem digit_digitChar {d : Nat} (h : d < 10) : digit (Nat.digitChar d) = d := by
  rw [digit, Nat.toNat_digitChar_of_lt_ten h]
  exact Nat.add_sub_cancel_left ..

/-- The digits of a number other than zero do not start with a zero. -/
theorem exists_toDigits_eq_cons (h : 0 < n) : ∃ c cs, Nat.toDigits 10 n = c :: cs ∧ digit c ≠ 0 := by
  induction n using Nat.strongRecOn with
  | ind n ih =>
    by_cases hten : n < 10
    · refine ⟨_, _, Nat.toDigits_of_lt_base hten, ?_⟩
      rw [digit_digitChar hten]
      omega
    · obtain ⟨c, cs, hcs, hc⟩ := ih (n / 10) (by omega) (by omega)
      refine ⟨c, cs ++ [(n % 10).digitChar], ?_, hc⟩
      rw [Nat.toDigits_of_base_le (by decide) (by omega), hcs, List.cons_append]

theorem wholeOk_toDigits : wholeOk ((Nat.toDigits 10 n).map digit) = true := by
  rcases Nat.eq_zero_or_pos n with rfl | h
  · rfl
  · obtain ⟨c, cs, hcs, hc⟩ := exists_toDigits_eq_cons n h
    rw [hcs]
    cases cs with
    | nil => rfl
    | cons d ds => exact bne_iff_ne.2 hc

theorem extend_toDigits : extend 0 ((Nat.toDigits 10 n).map digit) = n := by
  have h := Nat.ofDigitChars_ten_toDigits (n := n)
  rw [Nat.ofDigitChars_eq_foldl] at h
  rw [extend, List.foldl_map]
  simpa only [digit, Nat.mul_comm] using h

theorem isDigit_of_mem_toDigits (c : Char) (h : c ∈ Nat.toDigits 10 n) : c.isDigit = true :=
  Nat.isDigit_of_mem_toDigits (by decide) (by decide) h

theorem spanDigits_toDigits : spanDigits (Nat.toDigits 10 n) = ((Nat.toDigits 10 n).map digit, []) := by
  have htake : (Nat.toDigits 10 n ++ []).takeWhile Char.isDigit = Nat.toDigits 10 n ++ [] :=
    List.takeWhile_append_of_pos (isDigit_of_mem_toDigits n)
  have hdrop : (Nat.toDigits 10 n ++ []).dropWhile Char.isDigit = [] :=
    List.dropWhile_append_of_pos (isDigit_of_mem_toDigits n)
  rw [List.append_nil] at htake hdrop
  rw [spanDigits, htake, hdrop]

/-- **The digits of a number are read as a number of digits alone.** -/
theorem ofChars?_toDigits :
    ofChars? (Nat.toDigits 10 n) = some ⟨false, (Nat.toDigits 10 n).map digit, [], none⟩ := by
  unfold ofChars?
  split
  case h_1 negative cs hcs =>
    split at hcs
    case h_1 rest hrest =>
      -- A digit is no sign.
      have hdigit := isDigit_of_mem_toDigits n '-' (hrest ▸ List.mem_cons_self)
      exact absurd hdigit (by decide)
    case h_2 =>
      cases hcs
      have hwhole : guard (wholeOk ((Nat.toDigits 10 n).map digit) = true) = some () :=
        (Option.guard_eq_some' ()).2 (wholeOk_toDigits n)
      rw [spanDigits_toDigits]
      change (guard (wholeOk ((Nat.toDigits 10 n).map digit) = true) >>= _) = _
      rw [hwhole]
      rfl

end Digits

/-- **A number of 64 bits is what its digits denote.** -/
theorem toJson_toDigits {n : Nat} (h : n < UInt64.size) (cs : List Char) :
    toJson cs ⟨false, (Nat.toDigits 10 n).map digit, [], none⟩ = .nat n := by
  have hextend := extend_toDigits n
  have habsorb : absorb 0 ((Nat.toDigits 10 n).map digit) = _ := absorb_of_lt (by rwa [hextend])
  have hfinite : finite ⟨false, (Nat.toDigits 10 n).map digit, [], none⟩ = true := by
    rw [finite, habsorb, hextend]
    simpa [absorb] using inRange_of_lt h
  rw [toJson, hfinite]
  exact congrArg Json.nat hextend

end Numeral

namespace Json

/-! ## Scanning the text of a value -/

/-- The characters that may come after a value. -/
def endsValue (c : Char) : Prop := c = ',' ∨ c = ']' ∨ c = '\x7d'

/-- Whether a scanner is through with the tokens `ts`, last first: the text may end here, or a character that ends a value
may follow. -/
structure Scanner.Through (s : Scanner) (ts : List Token) : Prop where
  finish : s.finish = some ts.reverse
  step : ∀ c, endsValue c → s.step c = open? ts c

theorem Scanner.through_between (ts : List Token) : Through ⟨.between, ts⟩ ts := ⟨rfl, fun _ _ => rfl⟩

/-- A word ends at the character after it. -/
theorem Scanner.through_word {letters : List Char} {t : Token} (h : wordToken? letters.reverse = some t)
    (ts : List Token) : Through ⟨.word letters, ts⟩ (t :: ts) where
  finish := by simp [Scanner.finish, h]
  step c hc := by
    have hlower : c.isLower = false := by rcases hc with rfl | rfl | rfl <;> rfl
    simp [Scanner.step, hlower, h]

/-- So does a number. -/
theorem Scanner.through_numeral {chars : List Char} {t : Token} (h : numeralToken? chars.reverse = some t)
    (ts : List Token) : Through ⟨.numeral chars, ts⟩ (t :: ts) where
  finish := by simp [Scanner.finish, h]
  step c hc := by
    have hchar : isNumeralChar c = false := by rcases hc with rfl | rfl | rfl <;> rfl
    simp [Scanner.step, hchar, h]

/-- A digit starts a number. -/
theorem Scanner.open?_of_isDigit {c : Char} (h : c.isDigit = true) (ts : List Token) :
    open? ts c = some ⟨.numeral [c], ts⟩ := by
  have hne : ∀ d : Char, d.isDigit = false → c ≠ d := by
    rintro d hd rfl
    rw [h] at hd
    cases hd
  simp [open?, h, hne ' ' rfl, hne '\t' rfl, hne '\n' rfl, hne '\r' rfl, hne '\x7b' rfl, hne '\x7d' rfl, hne '[' rfl,
    hne ']' rfl, hne ',' rfl, hne ':' rfl, hne '"' rfl]

/-- **The digits of a number are scanned as this number.** -/
theorem scan_toDigits {n : Nat} (hn : n < UInt64.size) (ts : List Token) :
    ∃ s, (Nat.toDigits 10 n).foldlM Scanner.step ⟨.between, ts⟩ = some s ∧ s.Through (.number (.nat n) :: ts) := by
  have hdigits : ∀ (cs ds : List Char), (∀ c ∈ cs, c.isDigit = true) →
      cs.foldlM Scanner.step ⟨.numeral ds, ts⟩ = some ⟨.numeral (cs.reverse ++ ds), ts⟩ := by
    intro cs
    induction cs with
    | nil => exact fun ds _ => rfl
    | cons c cs ih =>
      intro ds h
      have hstep : Scanner.step ⟨.numeral ds, ts⟩ c = some ⟨.numeral (c :: ds), ts⟩ :=
        if_pos (by simp [isNumeralChar, h c List.mem_cons_self])
      rw [List.foldlM_cons, hstep]
      change cs.foldlM Scanner.step _ = _
      rw [ih (c :: ds) fun d hd => h d (List.mem_cons_of_mem c hd)]
      simp
  have hall := Numeral.isDigit_of_mem_toDigits n
  have htoken : numeralToken? (Nat.toDigits 10 n) = some (.number (.nat n)) := by
    rw [numeralToken?, Numeral.ofChars?_toDigits, Option.map_some, Numeral.toJson_toDigits hn]
  cases hcs : Nat.toDigits 10 n with
  | nil =>
    have hpos := Nat.length_toDigits_pos (b := 10) (n := n)
    rw [hcs] at hpos
    cases hpos
  | cons c cs =>
    rw [hcs] at hall htoken
    refine ⟨⟨.numeral (c :: cs).reverse, ts⟩, ?_, Scanner.through_numeral (by rwa [List.reverse_reverse]) ts⟩
    have hopen : Scanner.step ⟨.between, ts⟩ c = some ⟨.numeral [c], ts⟩ :=
      Scanner.open?_of_isDigit (hall c List.mem_cons_self) ts
    rw [List.foldlM_cons, hopen]
    change cs.foldlM Scanner.step _ = _
    rw [hdigits cs [c] fun d hd => hall d (List.mem_cons_of_mem c hd), List.reverse_cons]

/-- A character that is a token, where a value may end. -/
theorem scan_mark {s : Scanner} {ts : List Token} (h : s.Through ts) {c : Char} (hc : endsValue c) {t : Token}
    (ht : Scanner.open? ts c = some ⟨.between, t :: ts⟩) (cs : List Char) :
    (c :: cs).foldlM Scanner.step s = cs.foldlM Scanner.step ⟨.between, t :: ts⟩ := by
  rw [List.foldlM_cons, h.step c hc, ht]
  rfl

/-- The key of a member, and the colon after it. -/
theorem scan_key (k : String) (cs : List Char) (ts : List Token) :
    (quote k ++ ':' :: cs).foldlM Scanner.step ⟨.between, ts⟩ =
      cs.foldlM Scanner.step ⟨.between, .colon :: .text (some k) :: ts⟩ := by
  rw [foldlM_append_of_eq_some (scan_quote k ts)]
  rfl

mutual

/-- **The scanner finds the tokens of a value in its text.** -/
theorem scan_text : ∀ (j : Json), j.Faithful → ∀ ts : List Token,
    ∃ s, j.text.foldlM Scanner.step ⟨.between, ts⟩ = some s ∧ s.Through (j.tokens.reverse ++ ts)
  | .null, _, ts => ⟨⟨.word ['l', 'l', 'u', 'n'], ts⟩, rfl, Scanner.through_word rfl ts⟩
  | .bool true, _, ts => ⟨⟨.word ['e', 'u', 'r', 't'], ts⟩, rfl, Scanner.through_word rfl ts⟩
  | .bool false, _, ts => ⟨⟨.word ['e', 's', 'l', 'a', 'f'], ts⟩, rfl, Scanner.through_word rfl ts⟩
  | .nat n, h, ts => scan_toDigits h ts
  | .str s, _, ts => ⟨_, scan_quote s ts, Scanner.through_between _⟩
  | .arr [], _, ts => ⟨⟨.between, .rightBracket :: .leftBracket :: ts⟩, rfl, Scanner.through_between _⟩
  | .arr (j :: js), h, ts => by
    obtain ⟨s, hs, hthrough⟩ := scan_text j h.1 (.leftBracket :: ts)
    refine ⟨_, ?_, Scanner.through_between _⟩
    change (j.text ++ itemsText js).foldlM Scanner.step ⟨.between, .leftBracket :: ts⟩ = _
    have htokens : (Json.arr (j :: js)).tokens = .leftBracket :: (j.tokens ++ itemsTokens js) := rfl
    rw [foldlM_append_of_eq_some hs, scan_itemsText js h.2 hthrough, htokens]
    simp
  | .obj [], _, ts => ⟨⟨.between, .rightBrace :: .leftBrace :: ts⟩, rfl, Scanner.through_between _⟩
  | .obj ((k, j) :: ms), h, ts => by
    obtain ⟨s, hs, hthrough⟩ := scan_text j h.1 (.colon :: .text (some k) :: .leftBrace :: ts)
    refine ⟨_, ?_, Scanner.through_between _⟩
    have htext : (Json.obj ((k, j) :: ms)).text = '\x7b' :: (quote k ++ ':' :: (j.text ++ membersText ms)) :=
      List.append_assoc ('\x7b' :: quote k) (':' :: j.text) (membersText ms)
    have htokens : (Json.obj ((k, j) :: ms)).tokens =
        .leftBrace :: .text (some k) :: .colon :: (j.tokens ++ membersTokens ms) := rfl
    rw [htext, htokens]
    change (quote k ++ ':' :: (j.text ++ membersText ms)).foldlM Scanner.step ⟨.between, .leftBrace :: ts⟩ = _
    rw [scan_key, foldlM_append_of_eq_some hs, scan_membersText ms h.2 hthrough]
    simp

theorem scan_itemsText : ∀ (js : List Json), ItemsFaithful js → ∀ {s : Scanner} {ts : List Token}, s.Through ts →
    (itemsText js).foldlM Scanner.step s = some ⟨.between, (itemsTokens js).reverse ++ ts⟩
  | [], _, s, ts, hs => scan_mark hs (.inr (.inl rfl)) rfl []
  | j :: js, h, s, ts, hs => by
    obtain ⟨s', hs', hthrough⟩ := scan_text j h.1 (.comma :: ts)
    rw [itemsText, List.cons_append, scan_mark hs (.inl rfl) rfl, foldlM_append_of_eq_some hs',
      scan_itemsText js h.2 hthrough]
    simp [itemsTokens]

theorem scan_membersText : ∀ (ms : List (String × Json)), MembersFaithful ms → ∀ {s : Scanner} {ts : List Token},
    s.Through ts → (membersText ms).foldlM Scanner.step s = some ⟨.between, (membersTokens ms).reverse ++ ts⟩
  | [], _, s, ts, hs => scan_mark hs (.inr (.inr rfl)) rfl []
  | (k, j) :: ms, h, s, ts, hs => by
    obtain ⟨s', hs', hthrough⟩ := scan_text j h.1 (.colon :: .text (some k) :: .comma :: ts)
    have htext : membersText ((k, j) :: ms) = ',' :: (quote k ++ ':' :: (j.text ++ membersText ms)) :=
      List.append_assoc (',' :: quote k) (':' :: j.text) (membersText ms)
    rw [htext, scan_mark hs (.inl rfl) rfl, scan_key, foldlM_append_of_eq_some hs', scan_membersText ms h.2 hthrough]
    simp [membersTokens]

end

/-- **The tokens of a text are those of the value.** -/
theorem tokenize_text {j : Json} (h : j.Faithful) : tokenize j.text = some j.tokens := by
  obtain ⟨s, hs, hthrough⟩ := scan_text j h []
  rw [tokenize, Scanner.start, hs, Option.bind_some, hthrough.finish]
  simp

/-! ## Reading the tokens of a value -/

/-- An array may start with any value. -/
theorem foldlM_firstItem (j : Json) (ts : List Token) (stack : List Frame) :
    (j.tokens ++ ts).foldlM Point.step (.firstItem stack) =
      (j.tokens ++ ts).foldlM Point.step (.value (.arr [] :: stack)) := by
  cases j with
  | arr items => cases items <;> rfl
  | obj members => cases members <;> rfl
  | _ => rfl

/-- An object whose keys all have a value is that object. -/
theorem ofMembers_map (ms : List (String × Json)) : ofMembers (ms.map fun m => (some m.1, m.2)) = .obj ms := by
  have h : (ms.map fun m => (some m.1, m.2)).mapM (fun m => m.1.map fun k => (k, m.2)) = some ms :=
    mapM_map_eq_some fun m _ => rfl
  rw [ofMembers, h]

mutual

/-- **The reader makes a value out of its tokens.** -/
theorem read_tokens : ∀ (j : Json), j.Faithful → ∀ stack : List Frame,
    j.tokens.foldlM Point.step (.value stack) = some (.after j stack)
  | .null, _, _ => rfl
  | .bool _, _, _ => rfl
  | .nat _, _, _ => rfl
  | .str _, _, _ => rfl
  | .arr [], _, _ => rfl
  | .arr (j :: js), h, stack => by
    change (j.tokens ++ itemsTokens js).foldlM Point.step (.firstItem stack) = _
    rw [foldlM_firstItem, foldlM_append_of_eq_some (read_tokens j h.1 _), read_itemsTokens js h.2]
    rfl
  | .obj [], _, _ => rfl
  | .obj ((k, j) :: ms), h, stack => by
    change (j.tokens ++ membersTokens ms).foldlM Point.step (.value (.obj [] (some k) :: stack)) = _
    rw [foldlM_append_of_eq_some (read_tokens j h.1 _)]
    exact read_membersTokens ms h.2 [] k j stack

theorem read_itemsTokens : ∀ (js : List Json), ItemsFaithful js → ∀ (before : List Json) (v : Json) (stack : List Frame),
    (itemsTokens js).foldlM Point.step (.after v (.arr before :: stack)) =
      some (.after (.arr ((v :: before).reverse ++ js)) stack)
  | [], _, before, v, stack => by
    rw [List.append_nil]
    rfl
  | j :: js, h, before, v, stack => by
    change (j.tokens ++ itemsTokens js).foldlM Point.step (.value (.arr (v :: before) :: stack)) = _
    rw [foldlM_append_of_eq_some (read_tokens j h.1 _), read_itemsTokens js h.2]
    simp

theorem read_membersTokens : ∀ (ms : List (String × Json)), MembersFaithful ms →
    ∀ (before : List (String × Json)) (k : String) (v : Json) (stack : List Frame),
    (membersTokens ms).foldlM Point.step (.after v (.obj (before.map fun m => (some m.1, m.2)) (some k) :: stack)) =
      some (.after (.obj (((k, v) :: before).reverse ++ ms)) stack)
  | [], _, before, k, v, stack => by
    rw [List.append_nil, ← ofMembers_map, List.map_reverse]
    rfl
  | (l, j) :: ms, h, before, k, v, stack => by
    have ih := read_membersTokens ms h.2 ((k, v) :: before) l j stack
    change (j.tokens ++ membersTokens ms).foldlM Point.step
      (.value (.obj (((k, v) :: before).map fun m => (some m.1, m.2)) (some l) :: stack)) = _
    rw [foldlM_append_of_eq_some (read_tokens j h.1 _), ih]
    simp

end

/-- **The text of a faithful value is read as this value.** -/
theorem parse?_render {j : Json} (h : j.Faithful) : parse? j.render = some j := by
  rw [parse?, render, String.toList_ofList, tokenize_text h, Option.bind_some, ofTokens?, read_tokens j h []]
  rfl

end Json

end TypeAtlas

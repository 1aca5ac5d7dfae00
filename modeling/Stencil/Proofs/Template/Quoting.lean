import Stencil.Proofs.Expr.Cutting
import Stencil.Proofs.Template.Interior

/-! Where quoted strings end. The closing quote is the first one behind an even number of backslashes,
counted in the bytes of the text. Cutting a template and reading an expression both find it, from the left. -/
namespace Stencil

namespace Text

/-- The bytes of a text in UTF-8. -/
def bytes (cs : List Char) : List UInt8 := cs.flatMap String.utf8EncodeChar

theorem bytes_cons (c : Char) (cs : List Char) : bytes (c :: cs) = String.utf8EncodeChar c ++ bytes cs :=
  List.flatMap_cons

theorem bytes_append (cs ds : List Char) : bytes (cs ++ ds) = bytes cs ++ bytes ds := List.flatMap_append

theorem length_bytes (cs : List Char) : (bytes cs).length = byteLength cs := by
  induction cs with
  | nil => rfl
  | cons c cs ih =>
    rw [bytes_cons, List.length_append, String.length_utf8EncodeChar, ih]
    rfl

theorem bytes_toList (s : String) : bytes s.toList = s.toByteArray.data.toList := by
  rw [← String.utf8Encode_toList, List.utf8Encode, List.toList_data_toByteArray]
  rfl

/-- Outside ASCII every byte of a character has its high bit set. -/
theorem le_of_mem_utf8EncodeChar {c : Char} (hc : c.utf8Size ≠ 1) {b : UInt8}
    (hb : b ∈ String.utf8EncodeChar c) : 128 ≤ b.toNat := by
  have hor (x k : UInt8) (hk : 128 ≤ k.toNat) : 128 ≤ (x ||| k).toNat := by
    rw [UInt8.toNat_or]
    exact Nat.le_trans hk Nat.right_le_or
  have hpos := c.utf8Size_pos
  have hle := c.utf8Size_le_four
  have hsize : c.utf8Size = 2 ∨ c.utf8Size = 3 ∨ c.utf8Size = 4 := by omega
  rcases hsize with h | h | h
  · rw [String.utf8EncodeChar_eq_cons_cons h] at hb
    simp only [List.mem_cons, List.not_mem_nil, or_false] at hb
    rcases hb with rfl | rfl <;> exact hor _ _ (by decide)
  · rw [String.utf8EncodeChar_eq_cons_cons_cons h] at hb
    simp only [List.mem_cons, List.not_mem_nil, or_false] at hb
    rcases hb with rfl | rfl | rfl <;> exact hor _ _ (by decide)
  · rw [String.utf8EncodeChar_eq_cons_cons_cons_cons h] at hb
    simp only [List.mem_cons, List.not_mem_nil, or_false] at hb
    rcases hb with rfl | rfl | rfl | rfl <;> exact hor _ _ (by decide)

theorem utf8EncodeChar_ascii {c : Char} (hc : c.utf8Size = 1) : String.utf8EncodeChar c = [c.toUInt8] :=
  String.utf8EncodeChar_eq_singleton hc

theorem toNat_toUInt8 {c : Char} (hc : c.utf8Size = 1) : c.toUInt8.toNat = c.toNat ∧ c.toNat < 128 := by
  have hlt : c.toNat < 128 :=
    Nat.lt_succ_of_le (UInt32.le_iff_toNat_le.1 (Char.utf8Size_eq_one_iff.1 hc))
  exact ⟨Nat.mod_eq_of_lt (Nat.lt_trans hlt (by decide)), hlt⟩

/-- An ASCII byte stands for its character alone, wherever it occurs. -/
theorem mem_utf8EncodeChar {c d : Char} (hd : d.utf8Size = 1) :
    d.toUInt8 ∈ String.utf8EncodeChar c ↔ c = d := by
  obtain ⟨hbyte, hlt⟩ := toNat_toUInt8 hd
  by_cases hc : c.utf8Size = 1
  · rw [utf8EncodeChar_ascii hc, List.mem_singleton]
    refine ⟨fun h => Char.toNat_inj.1 ?_, fun h => congrArg Char.toUInt8 h.symm⟩
    rw [← hbyte, ← (toNat_toUInt8 hc).1, h]
  · constructor
    · intro h
      have hle := le_of_mem_utf8EncodeChar hc h
      omega
    · rintro rfl
      exact absurd hd hc

end Text

open Text

namespace Node

/-- The number of backslashes at the end of some bytes. -/
def backslashes (bs : List UInt8) : Nat := (bs.reverse.takeWhile (· == '\\'.toUInt8)).length

theorem backslashes_concat (bs : List UInt8) (b : UInt8) :
    backslashes (bs ++ [b]) = if b = '\\'.toUInt8 then backslashes bs + 1 else 0 := by
  rw [backslashes, List.reverse_append, List.reverse_singleton, List.singleton_append, List.takeWhile_cons]
  split <;> simp_all [backslashes]

/-- A backslash changes the parity of the backslashes at the end, and any other character ends the count. -/
theorem backslashes_char {bs : List UInt8} {odd : Bool} (h : backslashes bs % 2 = odd.toNat) (c : Char) :
    backslashes (bs ++ String.utf8EncodeChar c) % 2 = (c == '\\' && !odd).toNat := by
  by_cases hc : c = '\\'
  · subst hc
    rw [utf8EncodeChar_ascii rfl, backslashes_concat, if_pos rfl]
    cases odd <;> simp at h ⊢ <;> omega
  · obtain ⟨front, last, hlast⟩ :=
      (List.eq_nil_or_concat (String.utf8EncodeChar c)).resolve_left String.utf8EncodeChar_ne_nil
    have hslash : last ≠ '\\'.toUInt8 := by
      rintro rfl
      exact hc ((mem_utf8EncodeChar rfl).1 (by simp [hlast]))
    rw [hlast, List.concat_eq_append, ← List.append_assoc, backslashes_concat, if_neg hslash,
      beq_false_of_ne hc]
    rfl

/-- Whether the byte at index `i` is a quote with an even number of backslashes right before it, of which
those before index `start` do not count. -/
def closesAt (quote : UInt8) (bs : List UInt8) (start i : Nat) : Bool :=
  decide (bs[i]? = some quote ∧ backslashes ((bs.take i).drop start) % 2 = 0)

/-- The index behind the first quote from index `start` on that closes the string which begins there. -/
def closed? (quote : UInt8) (bs : List UInt8) (start : Nat) : Option Nat :=
  ((List.range' start (bs.length - start)).find? (closesAt quote bs start)).map (· + 1)

/-- The same search where it comes to the bytes `bs` behind the bytes `seen`. -/
def closedFrom? (quote : UInt8) (start : Nat) (seen bs : List UInt8) : Option Nat :=
  ((List.range' seen.length bs.length).find? (closesAt quote (seen ++ bs) start)).map (· + 1)

section
variable {quote : UInt8} {start : Nat} {seen bs ds : List UInt8}

theorem closedFrom?_cons (b : UInt8) : closedFrom? quote start seen (b :: bs) =
    if b = quote ∧ backslashes (seen.drop start) % 2 = 0 then some (seen.length + 1)
    else closedFrom? quote start (seen ++ [b]) bs := by
  have hcloses : closesAt quote (seen ++ b :: bs) start seen.length =
      decide (b = quote ∧ backslashes (seen.drop start) % 2 = 0) := by
    simp [closesAt]
  rw [closedFrom?, List.length_cons, List.range'_succ, List.find?_cons, hcloses, closedFrom?,
    List.append_assoc, List.length_append]
  split <;> simp_all

/-- Bytes that are no quotes are passed. -/
theorem closedFrom?_append (hds : quote ∉ ds) :
    closedFrom? quote start seen (ds ++ bs) = closedFrom? quote start (seen ++ ds) bs := by
  induction ds generalizing seen with
  | nil => rw [List.nil_append, List.append_nil]
  | cons d ds ih =>
    obtain ⟨hd, hds⟩ := not_or.1 (mt List.mem_cons.2 hds)
    rw [List.cons_append, closedFrom?_cons, if_neg fun h => hd h.1.symm, ih hds, List.append_assoc]
    rfl

end

section
variable {quote : Char} {start : Nat} {seen : List UInt8} {odd : Bool}

theorem closedFrom?_char (hq : quote.utf8Size = 1) (hodd : backslashes (seen.drop start) % 2 = odd.toNat)
    (c : Char) (cs : List Char) : closedFrom? quote.toUInt8 start seen (bytes (c :: cs)) =
      if c = quote ∧ odd = false then some (seen.length + c.utf8Size)
      else closedFrom? quote.toUInt8 start (seen ++ String.utf8EncodeChar c) (bytes cs) := by
  rw [bytes_cons]
  by_cases hc : c = quote
  · subst hc
    rw [utf8EncodeChar_ascii hq, List.singleton_append, closedFrom?_cons, hodd, hq]
    cases odd <;> simp
  · rw [closedFrom?_append fun h => hc ((mem_utf8EncodeChar hq).1 h), if_neg fun h => hc h.1]

/-- Counting the backslashes before each quote finds the quote that the cut from the left finds. -/
theorem closedFrom?_bytes (hq : quote.utf8Size = 1) {cs : List Char} (hstart : start ≤ seen.length)
    (hodd : backslashes (seen.drop start) % 2 = odd.toNat) :
    closedFrom? quote.toUInt8 start seen (bytes cs) =
      (cutString quote odd cs).map fun r => seen.length + byteLength r.1 := by
  induction cs generalizing seen odd with
  | nil => rfl
  | cons c cs ih =>
    have hseen : (seen ++ String.utf8EncodeChar c).length = seen.length + c.utf8Size := by
      rw [List.length_append, String.length_utf8EncodeChar]
    have hodd' : backslashes ((seen ++ String.utf8EncodeChar c).drop start) % 2 =
        (c == '\\' && !odd).toNat := by
      rw [List.drop_append_of_le_length hstart]
      exact backslashes_char hodd c
    rw [closedFrom?_char hq hodd, cutString]
    split
    · rfl
    · rw [ih (hseen ▸ Nat.le_add_right_of_le hstart) hodd', Option.map_map]
      congr 1
      funext r
      rw [hseen, Nat.add_assoc]
      rfl

end

/-- The byte behind the string whose content `cs` begins at byte `start`, where a template is cut. -/
def skipped? (quote : Char) (start : Nat) (cs : List Char) : Option Nat :=
  (cutString quote false cs).map fun r => start + byteLength r.1

theorem closed?_bytes {quote : Char} (hq : quote.utf8Size = 1) (pre cs : List Char) :
    closed? quote.toUInt8 (bytes (pre ++ cs)) (byteLength pre) = skipped? quote (byteLength pre) cs := by
  have hnone : backslashes ((bytes pre).drop (bytes pre).length) % 2 = false.toNat := by
    rw [List.drop_length]
    rfl
  rw [← length_bytes, bytes_append, closed?, List.length_append, Nat.add_sub_cancel_left]
  exact closedFrom?_bytes hq (Nat.le_refl _) hnone

/-- Cutting a string off and reading it leave the same text behind it, or both fail. -/
theorem cutString_readString {quote : Char} (hslash : quote ≠ '\\') (cs : List Char) :
    (cutString quote false cs).map Prod.snd = (Lexeme.readString quote cs).map Prod.snd := by
  fun_induction Lexeme.readString quote cs with
  | case1 => rfl
  | case2 cs => simp [cutString]
  | case3 => simp [cutString, hslash.symm]
  | case4 d ds _ ih =>
    -- The backslash makes the count odd, so the character after it closes nothing and ends the count.
    have hpair : cutString quote false ('\\' :: d :: ds) =
        (cutString quote false ds).map fun r => ('\\' :: d :: r.1, r.2) := by
      simp only [cutString]
      rw [if_neg fun h => hslash h.1.symm, if_neg fun h => Bool.noConfusion h.2, Option.map_map]
      simp [Function.comp_def]
    rw [hpair, Option.map_map, Option.map_map]
    exact ih
  | case5 c cs hquote hc ih =>
    have hplain : cutString quote false (c :: cs) =
        (cutString quote false cs).map fun r => (c :: r.1, r.2) := by
      simp [cutString, hquote, beq_false_of_ne hc]
    rw [hplain, Option.map_map, Option.map_map]
    exact ih

theorem quote_facts {quote : Char} (h : IsQuote quote) :
    quote.utf8Size = 1 ∧ quote ≠ '\\' ∧ isBlank quote = false := by
  rcases h with rfl | rfl <;> decide

theorem exists_cutString {quote : Char} (hslash : quote ≠ '\\') {cs rest : List Char} :
    (∃ s, cutString quote false cs = some (s, rest)) ↔
      ∃ content, Lexeme.readString quote cs = some (content, rest) := by
  have hsnd (x : Option (List Char × List Char)) :
      (∃ a, x = some (a, rest)) ↔ x.map Prod.snd = some rest := by
    cases x <;> simp [Prod.ext_iff]
  rw [hsnd, hsnd, cutString_readString hslash]

theorem cutString_eq_none {quote : Char} (hslash : quote ≠ '\\') {cs : List Char} :
    cutString quote false cs = none ↔ Lexeme.readString quote cs = none := by
  rw [← Option.map_eq_none_iff, cutString_readString hslash, Option.map_eq_none_iff]

end Node

open Node

namespace Lexeme

/-- At the quote at byte `opening`, in front of `cs`, a string is read that ends at byte `stop`, where the
reading of tokens goes on. -/
def StringUpTo (before : Option Lexeme) (opening : Nat) (quote : Char) (cs : List Char)
    (stop : Nat) : Prop :=
  ∃ content rest, read before quote cs = .ok (.string content, rest) ∧
    stop = opening + (byteLength (quote :: cs) - byteLength rest) ∧
    lexFrom opening before (quote :: cs) =
      (lexFrom stop (some (.string content)) rest).map fun ts => ⟨.string content, opening⟩ :: ts

section
variable {quote : Char} {cs : List Char} (hq : IsQuote quote) (before : Option Lexeme) (opening : Nat)
include hq

theorem read_eq_string {content : String} {rest : List Char} :
    read before quote cs = .ok (.string content, rest) ↔
      readString quote cs = some (content.toList, rest) := by
  rw [read, if_pos hq]
  cases readString quote cs with
  | none => simp
  | some r => simp [Prod.ext_iff, String.ext_iff]

theorem read_unterminated :
    read before quote cs = .error .unterminatedString ↔ readString quote cs = none := by
  rw [read, if_pos hq]
  cases readString quote cs <;> simp

/-- The bytes of a string with both quotes. -/
theorem byteLength_string (s rest : List Char) :
    byteLength (quote :: (s ++ rest)) - byteLength rest = 1 + byteLength s := by
  rw [← List.cons_append, byteLength_append, Nat.add_sub_cancel, ← (quote_facts hq).1]
  rfl

/-- A string that is cut off is read up to where the cut is. -/
theorem stringUpTo_of_cutString {s rest : List Char} (h : cutString quote false cs = some (s, rest)) :
    StringUpTo before opening quote cs (opening + 1 + byteLength s) := by
  obtain ⟨-, hslash, hblank⟩ := quote_facts hq
  obtain ⟨content, hs⟩ := (exists_cutString hslash).1 ⟨s, h⟩
  have hread : read before quote cs = .ok (.string (String.ofList content), rest) :=
    (read_eq_string hq before).2 (by rw [hs, String.toList_ofList])
  obtain rfl := append_of_cutString h
  have hstop : opening + 1 + byteLength s =
      opening + (byteLength (quote :: (s ++ rest)) - byteLength rest) := by
    rw [byteLength_string hq, Nat.add_assoc]
  refine ⟨_, rest, hread, hstop, ?_⟩
  rw [hstop]
  exact lexFrom_read hblank hread

theorem skipped?_eq_some (stop : Nat) : skipped? quote (opening + 1) cs = some stop ↔
    StringUpTo before opening quote cs stop := by
  constructor
  · intro h
    obtain ⟨⟨s, rest⟩, hcut, rfl⟩ := Option.map_eq_some_iff.1 h
    exact stringUpTo_of_cutString hq before opening hcut
  · rintro ⟨content, rest, hread, rfl, -⟩
    have hs := (read_eq_string hq before).1 hread
    obtain ⟨s, hcut⟩ := (exists_cutString (quote_facts hq).2.1).2 ⟨_, hs⟩
    obtain rfl := append_of_cutString hcut
    rw [skipped?, hcut, byteLength_string hq, ← Nat.add_assoc]
    rfl

theorem skipped?_eq_none : skipped? quote (opening + 1) cs = none ↔
    read before quote cs = .error .unterminatedString := by
  rw [skipped?, Option.map_eq_none_iff, cutString_eq_none (quote_facts hq).2.1, read_unterminated hq]

/-- A string without an end fails at the byte where it begins, and nothing behind a string fails there. -/
theorem lexFrom_unterminated : lexFrom opening before (quote :: cs) =
    .error (.lexical .unterminatedString opening) ↔ skipped? quote (opening + 1) cs = none := by
  constructor
  · intro h
    cases hskipped : skipped? quote (opening + 1) cs with
    | none => rfl
    | some stop =>
      obtain ⟨_, _, -, -, hlex⟩ := (skipped?_eq_some hq before opening stop).1 hskipped
      obtain ⟨r, -, rfl⟩ := Option.map_eq_some_iff.1 hskipped
      rw [hlex] at h
      obtain ⟨_, front, _, _, _, heq, -⟩ := exists_fault_of_lexFrom (Result.map_eq_error h)
      obtain ⟨-, hposition⟩ := Error.lexical.inj heq
      omega
  · intro h
    exact lexFrom_fault (quote_facts hq).2.2 ((skipped?_eq_none hq before opening).1 h)

end

end Lexeme

/-- Cutting a template and reading an expression agree on every string of a text. Skipping the string that
a quote opens comes to the byte behind its closing quote, the first one with an even number of backslashes
before it, and there the lexeme that begins with the opening quote ends. Where no quote closes the string,
reading it fails. -/
theorem skipped_iff_read {source : String} {pre cs : List Char} {quote : Char} (hquote : IsQuote quote)
    (hsource : source.toList = pre ++ quote :: cs) (before : Option Lexeme) :
    let opening := byteLength pre
    skipped? quote (opening + 1) cs =
        closed? quote.toUInt8 source.toByteArray.data.toList (opening + 1) ∧
      (∀ stop, skipped? quote (opening + 1) cs = some stop ↔
        Lexeme.StringUpTo before opening quote cs stop) ∧
      (skipped? quote (opening + 1) cs = none ↔
        Lexeme.read before quote cs = .error .unterminatedString) ∧
      (skipped? quote (opening + 1) cs = none ↔
        lexFrom opening before (quote :: cs) = .error (.lexical .unterminatedString opening)) := by
  intro opening
  refine ⟨?_, Lexeme.skipped?_eq_some hquote before opening,
    Lexeme.skipped?_eq_none hquote before opening,
    (Lexeme.lexFrom_unterminated hquote before opening).symm⟩
  have hsize : quote.utf8Size = 1 := (quote_facts hquote).1
  have hopening : byteLength (pre ++ [quote]) = opening + 1 := by
    rw [byteLength_append, ← hsize]
    rfl
  have hbytes : source.toByteArray.data.toList = bytes ((pre ++ [quote]) ++ cs) := by
    rw [← bytes_toList, hsource, List.append_assoc, List.singleton_append]
  rw [hbytes, ← hopening, closed?_bytes hsize]

/-- Quotes and backslashes that are escaped, behind a character of two bytes and around another one, and
a second string that does not end. -/
theorem skipped_iff_read_escaped :
    let source := "é\"\\é\\\"\\\\\" + 'x"
    let behind := ['\\', 'é', '\\', '"', '\\', '\\', '"', ' ', '+', ' ', '\'', 'x']
    source.toList = ['é'] ++ '"' :: behind ∧ skipped? '"' 3 behind = some 11 ∧
      closed? '"'.toUInt8 source.toByteArray.data.toList 3 = some 11 ∧
      Lexeme.StringUpTo none 2 '"' behind 11 ∧
      skipped? '\'' 15 ['x'] = none ∧ closed? '\''.toUInt8 source.toByteArray.data.toList 15 = none ∧
      lexFrom 14 (some (.operator .add)) ['\'', 'x'] = .error (.lexical .unterminatedString 14) := by
  intro source behind
  have hfirst : source.toList = ['é'] ++ '"' :: behind := by decide
  have hsecond : source.toList = ['é', '"'] ++ behind.take 10 ++ '\'' :: ['x'] := by decide
  have hskipped : skipped? '"' 3 behind = some 11 := by decide
  have hunclosed : skipped? '\'' 15 ['x'] = none := by decide
  have hopening : byteLength (['é', '"'] ++ behind.take 10) = 14 := by decide
  obtain ⟨hclosed, hread, -⟩ := skipped_iff_read (.inr rfl) hfirst none
  obtain ⟨hclosed', -, -, hlex⟩ := skipped_iff_read (.inl rfl) hsecond (some (.operator .add))
  rw [hopening] at hclosed' hlex
  exact ⟨hfirst, hskipped, hclosed.symm.trans hskipped, (hread 11).1 hskipped, hunclosed,
    hclosed'.symm.trans hunclosed, hlex.1 hunclosed⟩

end Stencil

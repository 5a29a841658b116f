import Axonyx.Core.Expr
import Axonyx.Lossy
import Axonyx.Runtime.Http

/-! URL form coding: names and values in percent encoding, joined to a query or a form body, and
the parsers that read them into a map. -/
namespace Axonyx.Runtime

open Axonyx.Core (lookup insertField insertAll_sorted lookup_insertAll)
open AxHttpRequest

section Encoding

def isUnreserved (byte : UInt8) : Bool :=
  (0x41 ≤ byte && byte ≤ 0x5A) || (0x61 ≤ byte && byte ≤ 0x7A) || (0x30 ≤ byte && byte ≤ 0x39) ||
    byte = 0x2D || byte = 0x5F || byte = 0x2E || byte = 0x7E

/-- A digit of `{:02X}`. -/
def upperHexDigit (n : Nat) : Char := "0123456789ABCDEF".toList.getD n '0'

def urlEncodeByte (byte : UInt8) : List Char :=
  if isUnreserved byte then [.ofNat byte.toNat]
  else ['%', upperHexDigit (byte.toNat / 16), upperHexDigit (byte.toNat % 16)]

def urlEncode (value : String) : String := .ofList ((Wire.utf8 value).flatMap urlEncodeByte)

/-- The pairs as a browser or `format!` joins them. -/
def formText (pairs : List (String × String)) : String :=
  Text.join "&" (pairs.map fun pair => urlEncode pair.1 ++ "=" ++ urlEncode pair.2)

end Encoding

section Parsing

/-- The map that the parsers fill: a name that comes again replaces its value. -/
def collectFields (pairs : List (String × String)) : List (String × String) :=
  pairs.foldl (fun fields pair => insertField fields pair.1 pair.2) []

/-- `parse_urlencoded_fields`. -/
def urlencodedFields (body : String) : List (String × String) := collectFields (parseUrlencodedFields body)

def parsePreviewQueryFields (requestTarget : String) : List (String × String) :=
  match Text.splitOnce requestTarget "?" with
  | none => []
  | some (_, query) => collectFields (parseUrlencodedFields ((Text.split query '#').headD ""))

/-- `url_decode` with the indices it reads; `none` is a panic. -/
def urlDecodeFrom (bytes : List UInt8) (index : Nat) : Option (List UInt8) :=
  if index < bytes.length then do
    let byte ← bytes[index]?
    if byte = 0x2B then
      let rest ← urlDecodeFrom bytes (index + 1)
      return 0x20 :: rest
    else if byte = 0x25 ∧ index + 2 < bytes.length then
      let high ← bytes[index + 1]?
      let low ← bytes[index + 2]?
      match hexValue high, hexValue low with
      | some high, some low =>
        let rest ← urlDecodeFrom bytes (index + 3)
        return (high * 16 + low) :: rest
      | _, _ =>
        let rest ← urlDecodeFrom bytes (index + 1)
        return 0x25 :: rest
    else
      let rest ← urlDecodeFrom bytes (index + 1)
      return byte :: rest
  else some []
termination_by bytes.length - index

end Parsing

section Decoding

theorem urlDecodeBytes_other {byte : UInt8} (rest : List UInt8) (plus : byte ≠ 0x2B)
    (percent : byte = 0x25 → ∀ high low more, rest = high :: low :: more →
      hexValue high = none ∨ hexValue low = none) :
    urlDecodeBytes (byte :: rest) = byte :: urlDecodeBytes rest := by
  by_cases escape : byte = 0x25
  · subst escape
    match rest with
    | [] => rfl
    | [_] => rfl
    | high :: low :: more =>
      rw [urlDecodeBytes]
      rcases percent rfl high low more rfl with broken | broken
      · rw [broken]
      · rw [broken]
        cases hexValue high <;> rfl
  · rw [urlDecodeBytes]
    · exact plus
    · exact fun _ _ _ same => absurd same escape

theorem urlDecodeBytes_escape {high low : UInt8} {h l : UInt8} (first : hexValue high = some h)
    (second : hexValue low = some l) (rest : List UInt8) :
    urlDecodeBytes (0x25 :: high :: low :: rest) = (h * 16 + l) :: urlDecodeBytes rest := by
  rw [urlDecodeBytes, first, second]

theorem urlDecodeBytes_broken {high low : UInt8} (rest : List UInt8)
    (broken : ∀ h l, hexValue high = some h → hexValue low = some l → False) :
    urlDecodeBytes (0x25 :: high :: low :: rest) = 0x25 :: urlDecodeBytes (high :: low :: rest) := by
  refine urlDecodeBytes_other _ (by decide) ?_
  rintro _ high low more same
  cases same
  cases first : hexValue high with
  | none => exact .inl rfl
  | some h =>
    cases last : hexValue low with
    | none => exact .inr rfl
    | some l => exact (broken h l first last).elim

/-- Every index is in bounds, and the loop ends. -/
theorem urlDecodeFrom_eq (bytes : List UInt8) (index : Nat) :
    urlDecodeFrom bytes index = some (urlDecodeBytes (bytes.drop index)) := by
  induction left : bytes.length - index using Nat.strongRecOn generalizing index with
  | ind n ih =>
    have later (k : Nat) (ahead : 0 < k) (inside : index < bytes.length) :
        urlDecodeFrom bytes (index + k) = some (urlDecodeBytes (bytes.drop (index + k))) :=
      ih (bytes.length - (index + k)) (by omega) (index + k) rfl
    rw [urlDecodeFrom]
    split
    next inside =>
      have here : bytes.drop index = bytes[index] :: bytes.drop (index + 1) := List.drop_eq_getElem_cons inside
      rw [here, List.getElem?_eq_getElem inside]
      simp only [Option.bind_eq_bind, Option.bind_some, later 1 (by decide) inside]
      split
      next plus =>
        rw [plus]
        rfl
      next other =>
        split
        next escape =>
          obtain ⟨percent, room⟩ := escape
          have second : bytes.drop (index + 1) = bytes[index + 1] :: bytes[index + 2] :: bytes.drop (index + 3) := by
            rw [List.drop_eq_getElem_cons (by omega), List.drop_eq_getElem_cons (by omega)]
          rw [List.getElem?_eq_getElem (by omega : index + 1 < bytes.length), List.getElem?_eq_getElem room, percent]
          simp only [Option.bind_some, later 3 (by decide) inside, second]
          split
          next high low first last =>
            rw [urlDecodeBytes_escape first last]
            rfl
          next broken =>
            rw [urlDecodeBytes_broken _ broken]
            rfl
        next plain =>
          rw [urlDecodeBytes_other _ other]
          · rfl
          · intro percent high low more same
            have length := congrArg List.length same
            rw [List.length_drop, List.length_cons, List.length_cons] at length
            exact absurd ⟨percent, by omega⟩ plain
    next outside =>
      rw [List.drop_eq_nil_of_le (Nat.not_lt.mp outside)]
      rfl

/-- A byte of a character beyond ASCII is no digit. -/
theorem hexValue_high {byte : UInt8} (high : 0x80 ≤ byte.toNat) : hexValue byte = none := by
  have above (bound : UInt8) (small : bound.toNat < 0x80) : ¬ byte ≤ bound := by
    rw [UInt8.le_iff_toNat_le]
    omega
  rw [hexValue, if_neg fun digit => above 0x39 (by decide) digit.2,
    if_neg fun lower => above 0x66 (by decide) lower.2, if_neg fun upper => above 0x46 (by decide) upper.2]

/-- A byte of a character beyond ASCII stays, and ends what stands in front of it. -/
theorem urlDecodeBytes_append (before : List UInt8) {byte : UInt8} (high : 0x80 ≤ byte.toNat) (rest : List UInt8) :
    urlDecodeBytes (before ++ byte :: rest) = urlDecodeBytes before ++ byte :: urlDecodeBytes rest := by
  have notPlus : byte ≠ 0x2B := by
    rintro rfl
    exact absurd high (by decide)
  have notPercent : byte ≠ 0x25 := by
    rintro rfl
    exact absurd high (by decide)
  have here : urlDecodeBytes (byte :: rest) = byte :: urlDecodeBytes rest :=
    urlDecodeBytes_other rest notPlus fun percent => absurd percent notPercent
  fun_induction urlDecodeBytes before with
  | case1 => exact here
  | case2 tail ih => rw [List.cons_append, urlDecodeBytes, ih, List.cons_append]
  | case3 a b tail h l last first ih =>
    simp only [List.cons_append] at ih ⊢
    rw [urlDecodeBytes_escape first last, ih]
  | case4 a b tail broken ih =>
    simp only [List.cons_append] at ih ⊢
    rw [urlDecodeBytes_broken _ broken, ih]
  | case5 other tail plus percent ih =>
    rw [List.cons_append, urlDecodeBytes_other _ plus, ih, List.cons_append]
    intro escape h l more same
    match tail with
    | [] =>
      obtain rfl := (List.cons.inj same).1
      exact .inl (hexValue_high high)
    | [_] =>
      obtain rfl := (List.cons.inj (List.cons.inj same).2).1
      exact .inr (hexValue_high high)
    | first :: second :: tail => exact (percent first second tail escape rfl).elim

theorem urlDecodeBytes_word (before rest : List UInt8) {word : List UInt8} (high : ∀ byte ∈ word, 0x80 ≤ byte.toNat)
    (present : word ≠ []) :
    urlDecodeBytes (before ++ (word ++ rest)) = urlDecodeBytes before ++ (word ++ urlDecodeBytes rest) := by
  induction word generalizing before with
  | nil => exact absurd rfl present
  | cons byte word ih =>
    rw [List.cons_append, urlDecodeBytes_append before (high byte List.mem_cons_self)]
    cases word with
    | nil => rfl
    | cons next word =>
      have later := ih [] (fun b among => high b (List.mem_cons_of_mem _ among)) (List.cons_ne_nil _ _)
      rw [List.nil_append] at later
      rw [later]
      rfl

theorem encode_high {c : Char} (beyond : 0x80 ≤ c.toNat) :
    ∀ byte ∈ String.utf8EncodeChar c, 0x80 ≤ byte.toNat := by
  have valid := Text.val_lt c
  have beyond : 0x80 ≤ c.val.toNat := beyond
  unfold String.utf8EncodeChar
  dsimp only
  generalize c.val.toNat = v at valid beyond ⊢
  intro byte member
  split at member
  · omega
  · split at member
    all_goals first | split at member | skip
    all_goals
      simp only [List.mem_cons, List.not_mem_nil, or_false] at member
      rcases member with rfl | rfl | rfl | rfl <;> rw [Text.toNat_ofNat_byte] <;> omega

theorem utf8_append (first second : String) : Wire.utf8 (first ++ second) = Wire.utf8 first ++ Wire.utf8 second := by
  rw [Text.utf8_toList, Text.utf8_toList, Text.utf8_toList, String.toList_append, List.flatMap_append]

/-- A character beyond ASCII is never split, whatever escapes stand around it. -/
theorem urlDecode_keeps (before after : String) {c : Char} (beyond : 0x80 ≤ c.toNat) :
    urlDecode (before ++ c.toString ++ after) = urlDecode before ++ c.toString ++ urlDecode after := by
  have bytes : urlDecodeBytes (Wire.utf8 (before ++ c.toString ++ after)) =
      urlDecodeBytes (Wire.utf8 before) ++ (String.utf8EncodeChar c ++ urlDecodeBytes (Wire.utf8 after)) := by
    have here : Wire.utf8 c.toString = String.utf8EncodeChar c := by
      rw [Text.utf8_toList]
      simp
    have present : String.utf8EncodeChar c ≠ [] := by
      rw [ne_eq, ← List.length_eq_zero_iff, String.length_utf8EncodeChar]
      exact Nat.ne_of_gt (Char.utf8Size_pos c)
    rw [utf8_append, utf8_append, here, List.append_assoc]
    exact urlDecodeBytes_word _ _ (encode_high beyond) present
  unfold urlDecode Text.fromUtf8Lossy
  rw [bytes, Text.lossyChars_append _ (Text.startsFresh_encode c _), Text.lossyChars_encode]
  apply String.toList_inj.mp
  simp

end Decoding

section RoundTrip

theorem hexDigit_bytes {n : Nat} (digit : n < 16) : ∃ byte,
    String.utf8EncodeChar (upperHexDigit n) = [byte] ∧ hexValue byte = some (UInt8.ofNat n) := by
  have table : ∀ n < 16, String.utf8EncodeChar (upperHexDigit n) = [UInt8.ofNat (upperHexDigit n).toNat] ∧
      hexValue (UInt8.ofNat (upperHexDigit n).toNat) = some (UInt8.ofNat n) := by decide
  exact ⟨_, table n digit⟩

theorem unreserved_low {byte : UInt8} (plain : isUnreserved byte = true) :
    byte.toNat < 0x80 ∧ byte ≠ 0x2B ∧ byte ≠ 0x25 := by
  simp only [isUnreserved, Bool.or_eq_true, Bool.and_eq_true, decide_eq_true_eq, UInt8.le_iff_toNat_le,
    ← UInt8.toNat_inj, UInt8.reduceToNat, ne_eq] at plain ⊢
  omega

theorem encode_ofNat {n : Nat} (ascii : n < 0x80) : String.utf8EncodeChar (Char.ofNat n) = [UInt8.ofNat n] := by
  have table : ∀ n < 0x80, String.utf8EncodeChar (Char.ofNat n) = [UInt8.ofNat n] := by decide
  exact table n ascii

/-- An encoded byte is read back. -/
theorem urlDecodeBytes_encode (byte : UInt8) (rest : List UInt8) :
    urlDecodeBytes ((urlEncodeByte byte).flatMap String.utf8EncodeChar ++ rest) = byte :: urlDecodeBytes rest := by
  unfold urlEncodeByte
  split
  next plain =>
    obtain ⟨low, plus, percent⟩ := unreserved_low plain
    rw [List.flatMap_singleton, encode_ofNat low, UInt8.ofNat_toNat, List.singleton_append]
    exact urlDecodeBytes_other rest plus fun escape => absurd escape percent
  next =>
    have small := byte.toNat_lt
    obtain ⟨high, first, highValue⟩ := hexDigit_bytes (show byte.toNat / 16 < 16 by omega)
    obtain ⟨low, last, lowValue⟩ := hexDigit_bytes (show byte.toNat % 16 < 16 by omega)
    have mark : String.utf8EncodeChar '%' = [0x25] := by decide
    have value : UInt8.ofNat (byte.toNat / 16) * 16 + UInt8.ofNat (byte.toNat % 16) = byte := by
      apply UInt8.toNat_inj.mp
      simp only [UInt8.toNat_add, UInt8.toNat_mul, UInt8.toNat_ofNat', UInt8.reduceToNat]
      omega
    simp only [List.flatMap_cons, List.flatMap_nil, mark, first, last, List.cons_append, List.nil_append]
    rw [urlDecodeBytes_escape highValue lowValue, value]

/-- What is encoded is decoded again. -/
theorem urlDecode_urlEncode (value : String) : urlDecode (urlEncode value) = value := by
  have bytes (word : List UInt8) :
      urlDecodeBytes ((word.flatMap urlEncodeByte).flatMap String.utf8EncodeChar) = word := by
    induction word with
    | nil => rfl
    | cons byte word ih => rw [List.flatMap_cons, List.flatMap_append, urlDecodeBytes_encode, ih]
  have encoded : Wire.utf8 (urlEncode value) =
      ((Wire.utf8 value).flatMap urlEncodeByte).flatMap String.utf8EncodeChar := by
    rw [Text.utf8_toList, urlEncode, String.toList_ofList]
  rw [urlDecode, encoded, bytes, Text.fromUtf8Lossy_utf8]

/-- The marks between names and values. -/
def isSeparator (c : Char) : Bool := c = '&' || c = '=' || c = '#' || c = '?'

theorem urlEncode_separators (value : String) : ∀ c ∈ (urlEncode value).toList, isSeparator c = false := by
  intro c member
  rw [urlEncode, String.toList_ofList] at member
  obtain ⟨byte, _, inside⟩ := List.mem_flatMap.mp member
  have small := byte.toNat_lt
  unfold urlEncodeByte at inside
  split at inside
  next plain =>
    have table : ∀ n < 0x80, isUnreserved (UInt8.ofNat n) = true → isSeparator (Char.ofNat n) = false := by decide
    rw [List.mem_singleton.mp inside]
    apply table _ (unreserved_low plain).1
    rwa [UInt8.ofNat_toNat]
  next =>
    have digits : ∀ n < 16, isSeparator (upperHexDigit n) = false := by decide
    simp only [List.mem_cons, List.not_mem_nil, or_false] at inside
    rcases inside with rfl | rfl | rfl
    · rfl
    · exact digits _ (by omega)
    · exact digits _ (by omega)

theorem formText_toList (pairs : List (String × String)) : (formText pairs).toList =
    ['&'].intercalate (pairs.map fun pair => (urlEncode pair.1).toList ++ '=' :: (urlEncode pair.2).toList) := by
  rw [formText, Text.join_toList, List.map_map]
  simp [Function.comp_def]

/-- The parser finds the pairs one after the other. -/
theorem parse_formText (pairs : List (String × String)) : parseUrlencodedFields (formText pairs) = pairs := by
  have apart (value : String) (mark : Char) (separator : isSeparator mark = true) :
      mark ∉ (urlEncode value).toList := by
    intro member
    rw [urlEncode_separators value mark member] at separator
    cases separator
  cases pairs with
  | nil => decide +kernel
  | cons first rest =>
    have parts : Text.split (formText (first :: rest)) '&' =
        (first :: rest).map fun pair => urlEncode pair.1 ++ "=" ++ urlEncode pair.2 := by
      rw [Text.split, formText_toList, List.splitOn_intercalate, List.map_map]
      · refine List.map_congr_left fun pair _ => String.toList_inj.mp ?_
        simp
      · intro part member
        obtain ⟨pair, _, rfl⟩ := List.mem_map.mp member
        simp [apart pair.1 '&' rfl, apart pair.2 '&' rfl]
      · exact List.cons_ne_nil _ _
    have cut (pair : String × String) : Text.splitOnce (urlEncode pair.1 ++ "=" ++ urlEncode pair.2) "=" =
        some (urlEncode pair.1, urlEncode pair.2) := by
      have chars : (urlEncode pair.1 ++ "=" ++ urlEncode pair.2).toList =
          (urlEncode pair.1).toList ++ '=' :: (urlEncode pair.2).toList := by simp
      have mark : "=".toList = ['='] := rfl
      rw [Text.splitOnce, chars, mark, Text.splitOnceChars_first (apart pair.1 '=' rfl)]
      simp
    have full (pair : String × String) : (urlEncode pair.1 ++ "=" ++ urlEncode pair.2).isEmpty = false := by
      rw [Bool.eq_false_iff, ne_eq, String.isEmpty_iff]
      intro empty
      have chars := congrArg String.toList empty
      simp at chars
    have kept : ((first :: rest).map fun pair => urlEncode pair.1 ++ "=" ++ urlEncode pair.2).filter (!·.isEmpty) =
        (first :: rest).map fun pair => urlEncode pair.1 ++ "=" ++ urlEncode pair.2 := by
      refine List.filter_eq_self.mpr fun part member => ?_
      obtain ⟨pair, _, rfl⟩ := List.mem_map.mp member
      rw [full]
      rfl
    rw [parseUrlencodedFields, parts, kept, List.map_map]
    refine (List.map_congr_left fun pair _ => ?_).trans (List.map_id _)
    simp only [Function.comp_apply, cut, Option.getD_some, urlDecode_urlEncode, id_eq]

theorem absent_intercalate {mark separator : Char} (other : mark ≠ separator) {parts : List (List Char)}
    (absent : ∀ part ∈ parts, mark ∉ part) : mark ∉ [separator].intercalate parts := by
  induction parts with
  | nil => exact List.not_mem_nil
  | cons part rest ih =>
    have here := absent part List.mem_cons_self
    have later := ih fun part member => absent part (List.mem_cons_of_mem _ member)
    cases rest with
    | nil => simpa [List.intercalate] using here
    | cons next rest =>
      simp only [List.intercalate, List.intersperse_cons_cons, List.flatten_cons, List.mem_append,
        List.mem_singleton, not_or]
      exact ⟨here, other, later⟩

theorem formText_separator (pairs : List (String × String)) : '#' ∉ (formText pairs).toList := by
  have apart (value : String) : '#' ∉ (urlEncode value).toList := by
    intro member
    exact absurd (urlEncode_separators value '#' member) (by decide)
  rw [formText_toList]
  refine absent_intercalate (by decide) fun part member => ?_
  obtain ⟨pair, _, rfl⟩ := List.mem_map.mp member
  simp [apart pair.1, apart pair.2]

theorem parsePreviewQueryFields_formText {path : String} (free : '?' ∉ path.toList) (pairs : List (String × String)) :
    parsePreviewQueryFields (path ++ "?" ++ formText pairs) = collectFields pairs := by
  have target : (path ++ "?" ++ formText pairs).toList = path.toList ++ '?' :: (formText pairs).toList := by simp
  have mark : "?".toList = ['?'] := rfl
  have whole : Text.split (formText pairs) '#' = [formText pairs] := by
    rw [Text.split, List.splitOn_eq_singleton (formText_separator pairs)]
    simp
  rw [parsePreviewQueryFields, Text.splitOnce, target, mark, Text.splitOnceChars_first free]
  simp only [Option.map_some, String.ofList_toList, whole, List.headD_cons, parse_formText]

end RoundTrip

section Maps

/-- The value of the last pair with a name. -/
def lastValue (pairs : List (String × String)) (name : String) : Option String := lookup pairs.reverse name

/-- The fields are a map of the pairs: every name with its last value, in the order of the names. -/
structure IsMapOf (pairs fields : List (String × String)) : Prop where
  sorted : fields.Pairwise (·.1 < ·.1)
  values : ∀ name, lookup fields name = lastValue pairs name

theorem collectFields_isMapOf (pairs : List (String × String)) : IsMapOf pairs (collectFields pairs) where
  sorted := insertAll_sorted pairs [] List.Pairwise.nil
  values name := (lookup_insertAll pairs [] name).trans (Option.or_none)

end Maps

/-- A form body or a query in URL coding is read as the map of its pairs; the decoder reads no
index out of bounds and keeps every character beyond ASCII whole. -/
theorem url_form_round_trip :
    (∀ pairs, IsMapOf pairs (urlencodedFields (formText pairs)) ∧
      ∀ path, '?' ∉ path.toList → IsMapOf pairs (parsePreviewQueryFields (path ++ "?" ++ formText pairs))) ∧
    (∀ value, urlDecode (urlEncode value) = value) ∧
    (∀ value, urlDecodeFrom (Wire.utf8 value) 0 = some (urlDecodeBytes (Wire.utf8 value))) ∧
    ∀ (before after : String) (c : Char), 0x80 ≤ c.toNat →
      urlDecode (before ++ c.toString ++ after) = urlDecode before ++ c.toString ++ urlDecode after := by
  refine ⟨fun pairs => ⟨?_, fun path free => ?_⟩, urlDecode_urlEncode, fun value => ?_, fun before after c => ?_⟩
  · rw [urlencodedFields, parse_formText]
    exact collectFields_isMapOf pairs
  · rw [parsePreviewQueryFields_formText free]
    exact collectFields_isMapOf pairs
  · exact urlDecodeFrom_eq _ 0
  · exact urlDecode_keeps before after

theorem url_form_round_trip_search :
    IsMapOf [("q", "a&b"), ("lang", "\u00e9")]
      (parsePreviewQueryFields ("/search" ++ "?" ++ formText [("q", "a&b"), ("lang", "\u00e9")])) ∧
    urlDecode ("%4" ++ 'é'.toString ++ "1") = urlDecode "%4" ++ 'é'.toString ++ urlDecode "1" :=
  ⟨(url_form_round_trip.1 _).2 "/search" (by decide), url_form_round_trip.2.2.2 "%4" "1" 'é' (by decide)⟩

/-- A name that comes twice keeps its last value only. -/
theorem url_form_last_value :
    urlencodedFields (formText [("tag", "a"), ("tag", "b")]) ≠ [("tag", "a"), ("tag", "b")] := by
  decide +kernel

end Axonyx.Runtime

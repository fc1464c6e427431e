import ClusterBroker.Ident
import Mathlib.Data.List.TakeWhile

/-!
# Identifiers as text

The text of an identifier reads as that identifier, in either case of its digits, and texts compare
byte by byte as the identifiers do. A text is read as an identifier of one kind at most: what comes
before its first underscore decides of which kind, and no later character can change that.
-/
namespace ClusterBroker

/-- The UTF-8 form of a text. -/
def Text.bytes (s : String) : List UInt8 := s.toUTF8.data.toList

namespace Text

theorem bytes_append (s t : String) : bytes (s ++ t) = bytes s ++ bytes t := by
  simp [bytes, String.toUTF8_eq_toByteArray]

theorem bytes_ofList (cs : List Char) :
    bytes (String.ofList cs) = cs.flatMap String.utf8EncodeChar := by
  simp [bytes, String.toUTF8_eq_toByteArray, List.utf8Encode]

theorem length_bytes (s : String) : (bytes s).length = s.utf8ByteSize := by
  rw [← String.size_toByteArray, bytes, String.toUTF8_eq_toByteArray, Array.length_toList]
  exact ByteArray.size_data

/-- A text of single bytes has as many bytes as characters. -/
theorem byteSize_ofList {cs : List Char} (h : ∀ c ∈ cs, c.utf8Size = 1) :
    (String.ofList cs).utf8ByteSize = cs.length := by
  rw [← length_bytes, bytes_ofList]
  induction cs with
  | nil => rfl
  | cons c cs ih =>
    obtain ⟨hc, hcs⟩ := List.forall_mem_cons.1 h
    rw [List.flatMap_cons, List.length_append, ih hcs, String.length_utf8EncodeChar, hc,
      List.length_cons, Nat.add_comm]

end Text

/-! ### Lists in lexical order -/

section Lexical

variable {α : Type} {cmp : α → α → Ordering}

theorem compareLex_prefix [Std.ReflCmp cmp] (l a b : List α) :
    List.compareLex cmp (l ++ a) (l ++ b) = List.compareLex cmp a b := by
  induction l with
  | nil => rfl
  | cons x l ih =>
    have hx : cmp x x = .eq := Std.ReflCmp.compare_self
    rw [List.cons_append, List.cons_append, List.compareLex_cons_cons, hx]
    exact ih

theorem compareLex_concat {l m : List α} (h : l.length = m.length) (a b : α) :
    List.compareLex cmp (l ++ [a]) (m ++ [b]) = (List.compareLex cmp l m).then (cmp a b) := by
  induction l generalizing m with
  | nil =>
    obtain rfl := List.length_eq_zero_iff.1 h.symm
    simp [List.compareLex_cons_cons, List.compareLex_nil_nil]
  | cons x l ih =>
    cases m with
    | nil => simp at h
    | cons y m =>
      simp only [List.cons_append, List.compareLex_cons_cons]
      rw [ih (Nat.succ.inj h), Ordering.then_assoc]

end Lexical

/-! ### Numerals in lexical order -/

namespace Base32

/-- Numbers compare as what is left of their last digits does, and then as these. -/
theorem compare_split (v w d e : Nat) (hd : d < 32) (he : e < 32) :
    compare (32 * v + d) (32 * w + e) = (compare v w).then (compare d e) := by
  rcases Nat.lt_trichotomy v w with h | rfl | h
  · rw [Nat.compare_eq_lt.2 h, Nat.compare_eq_lt.2 (by omega)]
    rfl
  · rw [Nat.compare_eq_eq.2 rfl]
    rcases Nat.lt_trichotomy d e with h | rfl | h
    · rw [Nat.compare_eq_lt.2 h, Nat.compare_eq_lt.2 (by omega)]
      rfl
    · rw [Nat.compare_eq_eq.2 rfl, Nat.compare_eq_eq.2 rfl]
      rfl
    · rw [Nat.compare_eq_gt.2 h, Nat.compare_eq_gt.2 (by omega)]
      rfl
  · rw [Nat.compare_eq_gt.2 h, Nat.compare_eq_gt.2 (by omega)]
    rfl

/-- Numerals of one length compare, digit by digit, as what they denote. -/
theorem compare_digits (n v w : Nat) :
    List.compareLex compare (digits n v) (digits n w) =
      compare (v % numerals n) (w % numerals n) := by
  induction n generalizing v w with
  | zero => simp [digits, numerals, Nat.mod_one]
  | succ n ih =>
    have hsplit (u : Nat) : u % numerals (n + 1) = 32 * (u / 32 % numerals n) + u % 32 := by
      rw [numerals, Nat.mod_mul, Nat.add_comm]
    rw [hsplit, hsplit, compare_split _ _ _ _ (Nat.mod_lt _ (by decide)) (Nat.mod_lt _ (by decide)),
      ← ih, digits, digits, compareLex_concat (by simp)]

theorem symbol_laws (d : Fin 32) : (symbol d).utf8Size = 1 ∧ (symbol d).toUpper = symbol d ∧
    alphabet.idxOf? (symbol d) = some d.val := by
  revert d
  decide

theorem utf8EncodeChar_symbol {d : Nat} (h : d < 32) :
    String.utf8EncodeChar (symbol d) = [(symbol d).val.toUInt8] :=
  String.utf8EncodeChar_eq_singleton (symbol_laws ⟨d, h⟩).1

/-- The bytes of symbols are in the order of their digits. -/
theorem compare_symbols (d e : Fin 32) :
    compare (symbol d).val.toUInt8 (symbol e).val.toUInt8 = compare d.val e.val := by
  revert d e
  decide

theorem compare_written {ds es : List Nat} (hd : ∀ d ∈ ds, d < 32) (he : ∀ e ∈ es, e < 32) :
    List.compareLex compare ((ds.map symbol).flatMap String.utf8EncodeChar)
      ((es.map symbol).flatMap String.utf8EncodeChar) = List.compareLex compare ds es := by
  induction ds generalizing es with
  | nil =>
    cases es with
    | nil => rfl
    | cons e es =>
      obtain ⟨he, -⟩ := List.forall_mem_cons.1 he
      simp [utf8EncodeChar_symbol he, List.compareLex_nil_cons]
  | cons d ds ih =>
    obtain ⟨hd, hds⟩ := List.forall_mem_cons.1 hd
    cases es with
    | nil => simp [utf8EncodeChar_symbol hd, List.compareLex_cons_nil]
    | cons e es =>
      obtain ⟨he, hes⟩ := List.forall_mem_cons.1 he
      have hcompare := compare_symbols ⟨d, hd⟩ ⟨e, he⟩
      simp only [List.map_cons, List.flatMap_cons, utf8EncodeChar_symbol hd,
        utf8EncodeChar_symbol he, List.cons_append, List.nil_append, List.compareLex_cons_cons,
        hcompare, ih hds hes]

/-- Written numerals of one length compare, byte by byte, as what they denote. -/
theorem compare_encode (n v w : Nat) :
    List.compareLex compare ((encode n v).flatMap String.utf8EncodeChar)
      ((encode n w).flatMap String.utf8EncodeChar) = compare (v % numerals n) (w % numerals n) := by
  rw [← compare_digits]
  exact compare_written (fun _ => lt_of_mem_digits) (fun _ => lt_of_mem_digits)

/-! ### Numerals in either case -/

/-- A character is as long as its upper-case form, if that is one byte. -/
theorem utf8Size_of_toUpper {c : Char} (h : c.toUpper.utf8Size = 1) : c.utf8Size = 1 := by
  unfold Char.toUpper at h
  split at h
  next hc => exact Char.utf8Size_eq_one_iff.2 (UInt32.le_trans hc.2 (by decide))
  next => exact h

theorem map_toUpper_encode (n v : Nat) : (encode n v).map Char.toUpper = encode n v := by
  unfold encode
  rw [List.map_map]
  refine List.map_congr_left fun d hd => ?_
  exact (symbol_laws ⟨d, lt_of_mem_digits hd⟩).2.1

theorem byteSize_of_upper {cs : List Char} {n v : Nat} (h : cs.map Char.toUpper = encode n v) :
    (String.ofList cs).utf8ByteSize = n := by
  have hascii : ∀ c ∈ cs, c.utf8Size = 1 := by
    intro c hc
    have hmem : c.toUpper ∈ encode n v := h ▸ List.mem_map_of_mem hc
    obtain ⟨d, hd, hsymbol⟩ := List.mem_map.1 hmem
    exact utf8Size_of_toUpper (hsymbol ▸ (symbol_laws ⟨d, lt_of_mem_digits hd⟩).1)
  have hlength := congrArg List.length h
  rw [List.length_map, length_encode] at hlength
  rw [Text.byteSize_ofList hascii, hlength]

theorem decode_of_upper {cs : List Char} {n v : Nat} (h : cs.map Char.toUpper = encode n v) :
    decode cs = some (v % numerals n) := by
  have hdigits (l : List Char) :
      l.mapM digit? = (l.map Char.toUpper).mapM fun c => alphabet.idxOf? c := by
    rw [List.mapM_map]
    rfl
  rw [← decode_encode, decode, decode, hdigits, hdigits (encode n v), h, map_toUpper_encode]

end Base32

namespace Id

variable {k : IdKind}

/-! ### The parts of a text -/

/-- The part before the first underscore decides of which kind the identifier is. -/
theorem parse_split (k : IdKind) {before : List Char} (h : '_' ∉ before) (rest : List Char) :
    parse k (String.ofList (before ++ '_' :: rest)) =
      if before = k.label.toList then parseDigits rest else .error .otherKind := by
  have hp : ∀ c ∈ before, decide (c ≠ '_') = true := by
    intro c hc
    exact decide_eq_true fun heq => h (heq ▸ hc)
  have htake : (before ++ '_' :: rest).takeWhile (· ≠ '_') = before := by
    rw [List.takeWhile_append_of_pos hp]
    simp
  have hdrop : (before ++ '_' :: rest).dropWhile (· ≠ '_') = '_' :: rest := by
    rw [List.dropWhile_append_of_pos hp]
    simp
  unfold parse
  rw [String.toList_ofList, htake, hdrop]

theorem parse_unsplit (k : IdKind) {text : String} (h : '_' ∉ text.toList) :
    parse k text = .error .noSeparator := by
  have hdrop : text.toList.dropWhile (· ≠ '_') = [] := by
    rw [List.dropWhile_eq_nil_iff]
    intro c hc
    exact decide_eq_true fun heq => h (heq ▸ hc)
  unfold parse
  rw [hdrop]

theorem label_unsplit (k : IdKind) : '_' ∉ k.label.toList := by
  cases k <;> decide

theorem label_inj {k k' : IdKind} (h : k.label.toList = k'.label.toList) : k = k' := by
  cases k <;> cases k' <;> first | rfl | exact absurd h (by decide)

/-- A text that reads as an identifier begins with the label of its kind. -/
theorem parse_eq_ok {text : String} {a : Id k} (h : parse k text = .ok a) :
    ∃ rest, text = String.ofList (k.label.toList ++ '_' :: rest) ∧ parseDigits rest = .ok a := by
  by_cases hmem : '_' ∈ text.toList
  · obtain ⟨before, rest, htext, hbefore⟩ := List.eq_append_cons_of_mem hmem
    have htext : text = String.ofList (before ++ '_' :: rest) := by
      rw [← htext, String.ofList_toList]
    rw [htext, parse_split k hbefore] at h
    split at h
    next hlabel => exact ⟨rest, hlabel ▸ htext, h⟩
    next => exact nomatch h
  · rw [parse_unsplit k hmem] at h
    exact nomatch h

theorem toText_eq (a : Id k) :
    a.toText = k.label ++ "_" ++ String.ofList (Base32.encode textLength a.value) := rfl

/-- A label and digits, as a text that is split at its first underscore. -/
theorem labelled_eq (k : IdKind) (cs : List Char) :
    k.label ++ "_" ++ String.ofList cs = String.ofList (k.label.toList ++ '_' :: cs) := by
  apply String.toList_inj.1
  simp

/-! ### Texts and values -/

theorem value_mod_numerals (a : Id k) : a.value % Base32.numerals textLength = a.value :=
  Nat.mod_eq_of_lt (Nat.lt_trans a.lt_range (by decide))

theorem ofNat_value (a : Id k) : (ofNat a.value : Id k) = a := by
  obtain ⟨v, hv⟩ := a
  unfold ofNat
  congr 1
  exact Nat.mod_eq_of_lt hv

/-- Digits read as the value that they were written for, in either case. -/
theorem parseDigits_of_upper {a : Id k} {cs : List Char}
    (h : cs.map Char.toUpper = Base32.encode textLength a.value) : parseDigits cs = .ok a := by
  unfold parseDigits
  rw [if_neg (not_not_intro (Base32.byteSize_of_upper h)), Base32.decode_of_upper h,
    a.value_mod_numerals]
  exact congrArg Except.ok a.ofNat_value

theorem parse_of_upper {a : Id k} {cs : List Char}
    (h : cs.map Char.toUpper = Base32.encode textLength a.value) :
    parse k (k.label ++ "_" ++ String.ofList cs) = .ok a := by
  rw [labelled_eq, parse_split k (label_unsplit k), if_pos rfl, parseDigits_of_upper h]

theorem parse_toText (a : Id k) : parse k a.toText = .ok a :=
  parse_of_upper (Base32.map_toUpper_encode textLength a.value)

instance : Ord (Id k) := ⟨fun a b => compare a.value b.value⟩

theorem compare_toText (a b : Id k) :
    compare (Text.bytes a.toText) (Text.bytes b.toText) = compare a b := by
  rw [List.compare_eq_compareLex, toText_eq, toText_eq, Text.bytes_append, Text.bytes_append _
    (String.ofList (Base32.encode textLength b.value)), compareLex_prefix, Text.bytes_ofList,
    Text.bytes_ofList, Base32.compare_encode, a.value_mod_numerals, b.value_mod_numerals]
  rfl

theorem timestamp_ofParts (millis random : Nat) :
    (ofParts millis random : Id k).timestamp = millis % timeRange := by
  unfold ofParts timestamp ofNat timeRange randomRange idRange
  dsimp only
  omega

/-- An identifier is read from its text, also if its digits are in lower case or in both. Texts
compare byte by byte as the identifiers do, in whose order tables are kept. What reads as an
identifier is refused by the other kinds, and so is everything else behind another label; without an
underscore nothing is read. Of a time of minting the low 48 bits are kept. -/
theorem text_faithful (k : IdKind) :
    (∀ a : Id k, parse k a.toText = .ok a ∧
      ∀ cs, k.label ++ "_" ++ String.ofList (cs.map Char.toUpper) = a.toText →
        parse k (k.label ++ "_" ++ String.ofList cs) = .ok a) ∧
      (∀ a b : Id k, compare a b = compare (Text.bytes a.toText) (Text.bytes b.toText) ∧
        (compare a b = .lt ↔ a < b)) ∧
      (∀ text (a : Id k), parse k text = .ok a → parse k a.toText = .ok a ∧
        ∀ k', k' ≠ k → parse k' text = .error .otherKind) ∧
      (∀ text, '_' ∉ text.toList → parse k text = .error .noSeparator) ∧
      (∀ before rest, '_' ∉ before → before ≠ k.label.toList →
        parse k (String.ofList (before ++ '_' :: rest)) = .error .otherKind) ∧
      ∀ millis random, (ofParts millis random : Id k).timestamp = millis % 0x1000000000000 := by
  refine ⟨fun a => ⟨parse_toText a, fun cs hcs => parse_of_upper ?_⟩, fun a b => ?_,
    fun text a ha => ⟨parse_toText a, fun k' hk => ?_⟩, fun text => parse_unsplit k, ?_,
    timestamp_ofParts⟩
  · exact String.ofList_injective (String.append_right_inj _ |>.1 hcs)
  · exact ⟨(compare_toText a b).symm, Nat.compare_eq_lt⟩
  · obtain ⟨rest, rfl, -⟩ := parse_eq_ok ha
    rw [parse_split k' (label_unsplit k)]
    exact if_neg fun h => hk (label_inj h).symm
  · intro before rest hbefore hlabel
    rw [parse_split k hbefore]
    exact if_neg hlabel

/-- The digits of a text are in both cases and the last identifier of all is next to it: the text of
the first reads as it, comes before that of the second, and is none of a handle. -/
theorem text_faithful_mixed :
    let a : Id .reservation := .ofParts 1469922850259 0xd6764c61efb99302bd5b
    let text := "rsv_01arz3ndekTSV4RRFFQ69G5fav"
    parse .reservation text = .ok a ∧
      compare (Text.bytes a.toText) (Text.bytes (last : Id .reservation).toText) = .lt ∧
      parse .handle text = .error .otherKind ∧
      parse .reservation "rsv-01ARZ" = .error .noSeparator ∧
      parse .reservation "RSV_01ARZ" = .error .otherKind ∧
      (ofParts 0x1000000000005 0 : Id .handle).timestamp = 5 := by
  intro a text
  obtain ⟨hread, horder, hkinds, hunsplit, hforeign, -⟩ := text_faithful .reservation
  have hupper := (hread a).2 "01arz3ndekTSV4RRFFQ69G5fav".toList (by decide +kernel)
  have htext : parse .reservation text = .ok a := hupper
  refine ⟨htext, ?_, (hkinds text a htext).2 .handle (by decide), hunsplit _ (by decide), ?_,
    (text_faithful .handle).2.2.2.2.2 _ _⟩
  · rw [← (horder a last).1, (horder a last).2]
    decide
  · exact hforeign "RSV".toList "01ARZ".toList (by decide) (by decide)

end Id

end ClusterBroker

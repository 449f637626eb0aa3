import Mathlib.Algebra.Order.Ring.Int

set_option autoImplicit false

namespace Text

def ofNat (value : Nat) : List Char := Nat.toDigits 10 value

def ofInt : Int → List Char
  | .ofNat value => ofNat value
  | .negSucc value => '-' :: ofNat (value + 1)

def digits? (text : List Char) : Option Nat :=
  -- At least one digit, and nothing else.
  if text.isEmpty || !text.all Char.isDigit then none else some (Nat.ofDigitChars 10 text 0)

def unsigned? (text : List Char) : Option Nat :=
  match text with
  | [] => none
  | sign :: rest => if sign = '+' then digits? rest else digits? text

def signed? (text : List Char) : Option Int :=
  match text with
  | [] => none
  | sign :: rest =>
      if sign = '-' then (digits? rest).map fun value : Nat => -(value : Int)
      else (unsigned? text).map Int.ofNat

def parseUnsigned (bits : Nat) (text : List Char) : Option Nat :=
  (unsigned? text).filter fun value => value < 2 ^ bits

def parseSigned (bits : Nat) (text : List Char) : Option Int :=
  (signed? text).filter fun value => -2 ^ (bits - 1) ≤ value ∧ value < 2 ^ (bits - 1)

def Plain (text : List Char) : Prop :=
  -- Nothing that separates fields or lines.
  ∀ c ∈ text, (c.isAlphanum || c == '-') = true

theorem Plain.not_mem {text : List Char} (plain : Plain text) {c : Char}
    (other : (c.isAlphanum || c == '-') = false) : c ∉ text :=
  fun member => Bool.false_ne_true (other.symm.trans (plain c member))

theorem isDigit_of_mem_ofNat {value : Nat} {c : Char} (member : c ∈ ofNat value) :
    c.isDigit = true :=
  Nat.isDigit_of_mem_toDigits (by decide) (by decide) member

theorem plain_ofNat (value : Nat) : Plain (ofNat value) := by
  intro c member
  simp [Char.isAlphanum, isDigit_of_mem_ofNat member]

theorem plain_toDigits {base : Nat} (least : 1 < base) (most : base ≤ 16) (value : Nat) :
    Plain (Nat.toDigits base value) := by
  have digits : ∀ digit < 16, (Nat.digitChar digit).isAlphanum = true := by decide
  induction value using Nat.strongRecOn with
  | _ value ih =>
      rw [Nat.toDigits_eq_if least]
      split
      · next small =>
          intro c member
          rw [List.mem_singleton.1 member, digits value (by omega), Bool.true_or]
      · next large =>
          have fewer : value / base < value := Nat.div_lt_self (by omega) least
          have last : value % base < base := Nat.mod_lt _ (by omega)
          intro c member
          rcases List.mem_append.1 member |>.imp_right List.mem_singleton.1 with before | rfl
          · exact ih _ fewer c before
          · rw [digits _ (by omega), Bool.true_or]

-- A numeral padded with zeros to a width.
def padded (width : Nat) (digits : List Char) : List Char := digits.leftpad width '0'

theorem plain_padded (width : Nat) {digits : List Char} (plain : Plain digits) :
    Plain (padded width digits) := by
  intro c member
  rcases List.mem_append.1 member with zero | digit
  · rw [(List.mem_replicate.1 zero).2]
    rfl
  · exact plain c digit

theorem plain_ofInt (value : Int) : Plain (ofInt value) := by
  cases value with
  | ofNat value => exact plain_ofNat value
  | negSucc value => exact List.forall_mem_cons.2 ⟨rfl, plain_ofNat (value + 1)⟩

theorem digits?_ofNat (value : Nat) : digits? (ofNat value) = some value := by
  have nonempty : (ofNat value).isEmpty = false :=
    List.isEmpty_eq_false_iff.2 Nat.toDigits_ne_nil
  have digits : (ofNat value).all Char.isDigit = true :=
    List.all_eq_true.2 fun _ => isDigit_of_mem_ofNat
  rw [digits?, nonempty, digits, ofNat, Nat.ofDigitChars_ten_toDigits]
  rfl

theorem ofNat_eq_cons (value : Nat) :
    ∃ first rest, ofNat value = first :: rest ∧ first.isDigit = true := by
  obtain ⟨first, rest, shape⟩ := List.exists_cons_of_ne_nil (Nat.toDigits_ne_nil (n := value) (b := 10))
  exact ⟨first, rest, shape, isDigit_of_mem_ofNat (by rw [ofNat, shape]; exact List.mem_cons_self)⟩

theorem unsigned?_ofNat (value : Nat) : unsigned? (ofNat value) = some value := by
  obtain ⟨first, rest, shape, digit⟩ := ofNat_eq_cons value
  have unsigned : first ≠ '+' := by
    rintro rfl
    cases digit
  rw [← digits?_ofNat value, shape, unsigned?, if_neg unsigned]

theorem digits?_eq_some {text : List Char} {value : Nat} :
    digits? text = some value ↔
      text ≠ [] ∧ (∀ c ∈ text, c.isDigit = true) ∧ Nat.ofDigitChars 10 text 0 = value := by
  unfold digits?
  split
  · next bad =>
      simp only [Bool.or_eq_true, List.isEmpty_iff, Bool.not_eq_true', List.all_eq_false] at bad
      refine ⟨nofun, fun ⟨nonempty, digits, _⟩ => ?_⟩
      obtain empty | ⟨c, member, other⟩ := bad
      · exact absurd empty nonempty
      · exact absurd (digits c member) other
  · next good =>
      simp only [Bool.or_eq_true, List.isEmpty_iff, Bool.not_eq_true', List.all_eq_false, not_or,
        not_exists, not_and, not_not] at good
      rw [Option.some.injEq]
      exact ⟨fun read => ⟨good.1, good.2, read⟩, fun read => read.2.2⟩

/-- A text that reads as `value` in `bits` bits: at least one digit, after an optional plus sign. -/
structure Numeral (bits : Nat) (text : List Char) (value : Nat) : Prop where
  shape : ∃ digits, (text = digits ∨ text = '+' :: digits) ∧ digits ≠ [] ∧
    (∀ c ∈ digits, c.isDigit = true) ∧ Nat.ofDigitChars 10 digits 0 = value
  fits : value < 2 ^ bits

theorem unsigned?_eq_some {text : List Char} {value : Nat} :
    unsigned? text = some value ↔ ∃ digits, (text = digits ∨ text = '+' :: digits) ∧ digits ≠ [] ∧
      (∀ c ∈ digits, c.isDigit = true) ∧ Nat.ofDigitChars 10 digits 0 = value := by
  cases text with
  | nil => simp [unsigned?]
  | cons sign rest =>
      by_cases plus : sign = '+'
      · subst plus
        rw [unsigned?, if_pos rfl, digits?_eq_some]
        constructor
        · exact fun found => ⟨rest, .inr rfl, found⟩
        · rintro ⟨digits, rfl | same, nonempty, digit, read⟩
          · exact absurd (digit '+' List.mem_cons_self) (by decide)
          · obtain rfl := (List.cons.inj same).2
            exact ⟨nonempty, digit, read⟩
      · rw [unsigned?, if_neg plus, digits?_eq_some]
        constructor
        · exact fun found => ⟨_, .inl rfl, found⟩
        · rintro ⟨digits, rfl | same, found⟩
          · exact found
          · exact absurd (List.cons.inj same).1 plus

theorem parseUnsigned_eq_some {bits : Nat} {text : List Char} {value : Nat} :
    parseUnsigned bits text = some value ↔ Numeral bits text value := by
  simp only [parseUnsigned, Option.filter_eq_some_iff, unsigned?_eq_some, decide_eq_true_eq]
  exact ⟨fun ⟨shape, fits⟩ => ⟨shape, fits⟩, fun numeral => ⟨numeral.shape, numeral.fits⟩⟩

theorem Numeral.not_mem {bits : Nat} {text : List Char} {value : Nat}
    (numeral : Numeral bits text value) {c : Char} (other : c.isDigit = false) (plus : c ≠ '+') :
    c ∉ text := by
  obtain ⟨digits, shape, _, digit, _⟩ := numeral.shape
  have absent : c ∉ digits := fun member => Bool.false_ne_true (other.symm.trans (digit c member))
  rcases shape with rfl | rfl
  · exact absent
  · exact fun member => (List.mem_cons.1 member).elim plus absent

theorem signed?_ofInt (value : Int) : signed? (ofInt value) = some value := by
  cases value with
  | ofNat value =>
      obtain ⟨first, rest, shape, digit⟩ := ofNat_eq_cons value
      have unsigned : first ≠ '-' := by
        rintro rfl
        cases digit
      have read := unsigned?_ofNat value
      rw [shape] at read
      rw [ofInt, shape, signed?, if_neg unsigned, read, Option.map_some]
  | negSucc value =>
      rw [ofInt, signed?, if_pos rfl, digits?_ofNat, Option.map_some, Int.negSucc_eq]
      rfl

theorem parseUnsigned_ofNat {bits value : Nat} (fits : value < 2 ^ bits) :
    parseUnsigned bits (ofNat value) = some value := by
  simp [parseUnsigned, unsigned?_ofNat, fits]

theorem parseSigned_ofInt {bits : Nat} {value : Int} (least : -2 ^ (bits - 1) ≤ value)
    (most : value < 2 ^ (bits - 1)) : parseSigned bits (ofInt value) = some value := by
  simp [parseSigned, signed?_ofInt, least, most]

-- Fields joined by commas.
def record (fields : List (List Char)) : List Char := [','].intercalate fields

def fields (line : List Char) : List (List Char) := line.splitOn ','

theorem fields_record {entries : List (List Char)} (nonempty : entries ≠ [])
    (clean : ∀ field ∈ entries, ',' ∉ field) : fields (record entries) = entries :=
  List.splitOn_intercalate ',' clean nonempty

theorem not_mem_record {entries : List (List Char)} {c : Char} (comma : c ≠ ',')
    (clean : ∀ field ∈ entries, c ∉ field) : c ∉ record entries := by
  induction entries with
  | nil => exact List.not_mem_nil
  | cons field rest ih =>
      have first := clean field List.mem_cons_self
      have later := ih fun next among => clean next (List.mem_cons_of_mem _ among)
      cases rest with
      | nil => rwa [record, List.intercalate_singleton]
      | cons next rest =>
          rw [record, List.intercalate_cons_cons, List.append_assoc, List.mem_append,
            List.mem_append, List.mem_singleton]
          exact fun member => member.elim first fun member => member.elim comma later

structure Whole (line : List Char) : Prop where
  nonempty : line ≠ []
  newline : '\n' ∉ line
  carriage : '\r' ∉ line

-- Every line ended by a newline.
def unlines (lines : List (List Char)) : List Char := (lines.map fun line => line ++ ['\n']).flatten

def stripReturn (line : List Char) : List Char :=
  if line.getLast? = some '\r' then line.dropLast else line

def lines (text : List Char) : List (List Char) :=
  -- What the newlines end, and what follows the last of them unless that is empty.
  let pieces := text.splitOn '\n'
  pieces.dropLast.map stripReturn ++ pieces.getLast?.toList.filter fun rest => !rest.isEmpty

theorem splitOn_unlines {written : List (List Char)} (clean : ∀ line ∈ written, '\n' ∉ line) :
    (unlines written).splitOn '\n' = written ++ [[]] := by
  induction written with
  | nil => rfl
  | cons line rest ih =>
      have shape : unlines (line :: rest) = line ++ '\n' :: unlines rest := by simp [unlines]
      rw [shape, List.splitOn_append_cons_self_of_not_mem (clean line List.mem_cons_self),
        ih fun other among => clean other (List.mem_cons_of_mem _ among), List.cons_append]

theorem not_mem_splitOn (sep : Char) (text : List Char) :
    ∀ piece ∈ text.splitOn sep, sep ∉ piece := by
  induction text with
  | nil => simp
  | cons c rest ih =>
      rw [List.splitOn_cons_eq_if_modifyHead]
      split
      · exact List.forall_mem_cons.2 ⟨List.not_mem_nil, ih⟩
      · next other =>
          obtain ⟨first, later, pieces⟩ := List.exists_cons_of_ne_nil (List.splitOn_ne_nil sep rest)
          rw [pieces, List.forall_mem_cons] at ih
          rw [pieces, List.modifyHead_cons, List.forall_mem_cons]
          refine ⟨fun member => ?_, ih.2⟩
          rcases List.mem_cons.1 member with rfl | inside
          · exact other (beq_self_eq_true sep)
          · exact ih.1 inside

theorem not_mem_lines {text line : List Char} (among : line ∈ lines text) : '\n' ∉ line := by
  rcases List.mem_append.1 among with ended | rest
  · obtain ⟨piece, inside, rfl⟩ := List.mem_map.1 ended
    have clean := not_mem_splitOn '\n' text piece (List.dropLast_subset _ inside)
    unfold stripReturn
    split
    · exact fun member => clean (List.dropLast_subset _ member)
    · exact clean
  · have last := Option.mem_toList.1 (List.mem_filter.1 rest).1
    exact not_mem_splitOn '\n' text line (List.mem_of_getLast? last)

theorem stripReturn_of_not_mem {line : List Char} (clean : '\r' ∉ line) : stripReturn line = line :=
  if_neg fun last => clean (List.mem_of_getLast? last)

theorem lines_unlines {written : List (List Char)} (whole : ∀ line ∈ written, Whole line) :
    lines (unlines written) = written := by
  have kept : written.map stripReturn = written := by
    conv_rhs => rw [← List.map_id written]
    exact List.map_congr_left fun line among => stripReturn_of_not_mem (whole line among).carriage
  simp [lines, splitOn_unlines fun line among => (whole line among).newline, kept]

theorem count_newline_unlines {written : List (List Char)}
    (clean : ∀ line ∈ written, '\n' ∉ line) : (unlines written).count '\n' = written.length := by
  induction written with
  | nil => rfl
  | cons line rest ih =>
      have shape : unlines (line :: rest) = line ++ '\n' :: unlines rest := by simp [unlines]
      rw [shape, List.count_append, List.count_eq_zero_of_not_mem (clean line List.mem_cons_self),
        List.count_cons_self, ih fun other among => clean other (List.mem_cons_of_mem _ among),
        List.length_cons, Nat.zero_add]

theorem torn_of_prefix_unlines {written : List (List Char)} {text : List Char}
    (cut : text <+: unlines written) :
    ∃ count torn, count ≤ written.length ∧ text = unlines (written.take count) ++ torn ∧
      (torn = [] ∨ ∃ line, written[count]? = some line ∧ torn <+: line) := by
  induction written generalizing text with
  | nil => exact ⟨0, [], le_rfl, List.prefix_nil.1 cut, .inl rfl⟩
  | cons line rest ih =>
      have shape : unlines (line :: rest) = (line ++ ['\n']) ++ unlines rest := by simp [unlines]
      rw [shape] at cut
      rcases List.prefix_or_prefix_of_prefix cut (List.prefix_append _ _) with within | beyond
      · rcases List.prefix_concat_iff.1 within with rfl | within
        · refine ⟨1, [], by simp, ?_, .inl rfl⟩
          simp [unlines]
        · exact ⟨0, text, Nat.zero_le _, rfl, .inr ⟨line, rfl, within⟩⟩
      · obtain ⟨later, rfl⟩ := beyond
        obtain ⟨count, torn, inside, rfl, last⟩ := ih ((List.prefix_append_right_inj _).1 cut)
        refine ⟨count + 1, torn, Nat.succ_le_succ inside, ?_, last⟩
        simp [unlines]

end Text

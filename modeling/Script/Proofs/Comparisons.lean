import Mathlib.Data.String.Basic
import Script.Proofs.OperatorTable

/-!
# Comparisons

The six comparisons look at integers and characters through three different ways of applying an
operator, and at strings character by character. Here they are shown to be orders: integers and
characters in any mix compare as the numbers that they are, and strings compare both by their code
points and by the bytes of their UTF-8 encodings.

The two orders of strings are the same because the encodings of two characters always differ at a
place where both have a byte, and there the smaller character has the smaller byte. What follows in
the two strings does not matter then.

## Key results

- `Text.diverges_utf8EncodeChar`, `Text.flatMap_lt_flatMap`: the order of encodings
- `Operation.comparedAs_numbers`, `Operation.comparedAs_strings`: what comparisons compare
- `Operation.ComparesTotally.of_key`: comparing by a key of a linear order is consistent
- `Operation.comparisons_are_orders`: the orders of numbers and of strings
-/

namespace Script

/-! ## The order of encodings -/

namespace Text

/-- Both lists have an element at the first place where they differ, and the first list has the
    smaller one. -/
def Diverges {α : Type} [LT α] : List α → List α → Prop
  | x :: r, y :: s => x < y ∨ x = y ∧ Diverges r s
  | _, _ => False

/-- Whatever follows two lists that diverge, their order is decided. -/
private theorem Diverges.append_lt {α : Type} [LT α] {l m : List α} (h : Diverges l m)
    (r s : List α) :
    l ++ r < m ++ s := by
  induction l generalizing m with
  | nil => exact h.elim
  | cons x l ih =>
    cases m with
    | nil => exact h.elim
    | cons y m =>
      rw [List.cons_append, List.cons_append, List.cons_lt_cons_iff]
      exact h.imp id fun htail => ⟨htail.1, ih htail.2⟩

/-- Two lists of bytes diverge at their first bytes or behind them. -/
private theorem diverges_ofNat_cons_iff {m n : Nat} (hm : m < 256) (hn : n < 256)
    (r s : List UInt8) :
    Diverges (UInt8.ofNat m :: r) (UInt8.ofNat n :: s) ↔ m < n ∨ m = n ∧ Diverges r s := by
  rw [Diverges, UInt8.lt_iff_toNat_lt, ← UInt8.toNat_inj, UInt8.toNat_ofNat_of_lt' hm,
    UInt8.toNat_ofNat_of_lt' hn]

/-- The first bytes of encodings of different lengths are in separate ranges, and encodings of one
    length have the digits of the code point, the highest first. -/
theorem diverges_utf8EncodeChar {c d : Char} (h : c < d) :
    Diverges (String.utf8EncodeChar c) (String.utf8EncodeChar d) := by
  have hlt : c.val.toNat < d.val.toNat := h
  have hvalid := d.valid
  simp only [UInt32.isValidChar, Nat.isValidChar] at hvalid
  unfold String.utf8EncodeChar
  generalize c.val.toNat = m, d.val.toNat = n at hlt hvalid
  -- The bytes are the digits to base 64, so that each is divided off the one before it.
  have hsecond (k : Nat) : k / 4096 = k / 64 / 64 := by omega
  have hthird (k : Nat) : k / 262144 = k / 64 / 64 / 64 := by omega
  simp only [hsecond, hthird]
  split_ifs
  all_goals
    simp (disch := omega) only [diverges_ofNat_cons_iff]
    omega

/-- The order of characters is kept by the order of their encodings, one after the other. -/
theorem flatMap_lt_flatMap {l m : List Char} (h : l < m) :
    l.flatMap String.utf8EncodeChar < m.flatMap String.utf8EncodeChar := by
  induction l generalizing m with
  | nil =>
    cases m with
    | nil => exact absurd h (List.lt_irrefl [])
    | cons d m =>
      have hne : String.utf8EncodeChar d ≠ [] := String.utf8EncodeChar_ne_nil
      obtain ⟨byte, more, hbytes⟩ := List.exists_cons_of_ne_nil hne
      rw [List.flatMap_nil, List.flatMap_cons, hbytes]
      exact List.nil_lt_cons _ _
  | cons c l ih =>
    cases m with
    | nil => exact absurd h (List.not_lt_nil _)
    | cons d m =>
      rw [List.flatMap_cons, List.flatMap_cons]
      -- Characters that differ have encodings of which none begins with the other, so that what
      -- follows plays no part.
      rcases List.cons_lt_cons_iff.mp h with hlt | ⟨rfl, htail⟩
      · exact (diverges_utf8EncodeChar hlt).append_lt _ _
      · exact List.append_left_lt (ih htail)

/-- The bytes of the UTF-8 encoding of a string. -/
def bytes (s : String) : List UInt8 :=
  s.toUTF8.data.toList

/-- The code points of a string. -/
def codePoints (s : String) : List Nat :=
  s.toList.map Char.toNat

/-- The bytes of a string are the encodings of its characters in a row. -/
private theorem bytes_eq_flatMap (s : String) :
    bytes s = s.toList.flatMap String.utf8EncodeChar := by
  rw [bytes, String.toUTF8_eq_toByteArray, ← String.ofList_toList (s := s),
    String.toByteArray_ofList, List.utf8Encode, List.toList_data_toByteArray, String.toList_ofList]

/-- The order of strings is an order of their bytes. -/
private theorem bytes_lt_bytes {a b : String} (h : a < b) : bytes a < bytes b := by
  rw [bytes_eq_flatMap, bytes_eq_flatMap]
  exact flatMap_lt_flatMap h

/-- The order of strings is an order of their code points. -/
private theorem codePoints_lt_codePoints {a b : String} (h : a < b) : codePoints a < codePoints b :=
  List.map_lt (fun _ _ hlt => hlt) h

end Text

namespace Operation

/-! ## What comparisons compare -/

/-- The operators that compare. -/
def comparisons : List BinaryOp :=
  [.equal, .notEqual, .less, .lessEqual, .greater, .greaterEqual]

/-- The relation that a comparison asks for. -/
def relation {α : Type} [LT α] : BinaryOp → α → α → Prop
  | .equal, x, y => x = y
  | .notEqual, x, y => x ≠ y
  | .less, x, y => x < y
  | .lessEqual, x, y => x < y ∨ x = y
  | .greater, x, y => y < x
  | .greaterEqual, x, y => y < x ∨ x = y
  | _, _, _ => False

/-- An operator applied to two values gives true. -/
def Holds (op : BinaryOp) (left right : Value) : Prop :=
  binary op left right = .ok (.bool true)

/-- Every comparison of the two values gives a boolean, and that is what the comparison of `x` and
    `y` says. -/
def ComparedAs {α : Type} [LT α] (left right : Value) (x y : α) : Prop :=
  ∀ op ∈ comparisons, ∃ answer, binary op left right = .ok (.bool answer) ∧
    (answer = true ↔ relation op x y)

section Compare

variable {α β : Type} [LT α] [LT β] {left right : Value} {x y : α}

/-- A comparison holds of the values if it holds of what they are compared as. -/
private theorem ComparedAs.holds_iff (h : ComparedAs left right x y) {op : BinaryOp}
    (hop : op ∈ comparisons) : Holds op left right ↔ relation op x y := by
  obtain ⟨answer, hanswer, hiff⟩ := h op hop
  rw [← hiff, Holds, hanswer]
  simp

/-- What is compared may be replaced by something with the same order. -/
theorem ComparedAs.map (h : ComparedAs left right x y) {f : α → β}
    (hlt : ∀ {a b}, f a < f b ↔ a < b) (hf : f.Injective) :
    ComparedAs left right (f x) (f y) := by
  intro op hop
  obtain ⟨answer, hanswer, hiff⟩ := h op hop
  refine ⟨answer, hanswer, hiff.trans ?_⟩
  cases op <;> simp [relation, hlt, hf.eq_iff]

/-- Pairs of values that are compared as the same are compared alike. -/
theorem ComparedAs.binary_eq {left' right' : Value} (h : ComparedAs left right x y)
    (h' : ComparedAs left' right' x y) {op : BinaryOp} (hop : op ∈ comparisons) :
    binary op left right = binary op left' right' := by
  obtain ⟨answer, hanswer, hiff⟩ := h op hop
  obtain ⟨answer', hanswer', hiff'⟩ := h' op hop
  rw [hanswer, hanswer', Bool.eq_iff_iff.mpr (hiff.trans hiff'.symm)]

/-- Values are compared as elements of an ordered type where each operator gives its comparison of
    them. -/
private theorem comparedAs_of_combine [DecidableLT α] [DecidableEq α]
    (hcombine : ∀ op ∈ comparisons,
      combine op left right = .ok ((comparison op (x < y) (x == y) (y < x)).map .bool)) :
    ComparedAs left right x y := by
  intro op hop
  have hresult := hcombine op hop
  simp only [comparisons, List.mem_cons, List.not_mem_nil, or_false] at hop
  rcases hop with rfl | rfl | rfl | rfl | rfl | rfl
  all_goals
    refine ⟨_, by rw [binary, hresult]; rfl, ?_⟩
    simp [relation]

end Compare

/-- However an operator is applied to two values, it compares if it is a comparison. -/
private theorem eq_comparison {op : BinaryOp} (hop : op ∈ comparisons) :
    (∀ a b, integers op a b = .ok ((comparison op (a < b) (a == b) (b < a)).map .bool)) ∧
      (∀ a b, chars op a b = (comparison op (a < b) (a == b) (b < a)).map .bool) ∧
      ∀ a b, strings op a b = (comparison op (a < b) (a == b) (b < a)).map .bool := by
  simp only [comparisons, List.mem_cons, List.not_mem_nil, or_false] at hop
  rcases hop with rfl | rfl | rfl | rfl | rfl | rfl
  all_goals exact ⟨fun _ _ => rfl, fun _ _ => rfl, fun _ _ => rfl⟩

/-! ## Numbers -/

/-- Characters are compared as characters. -/
private theorem comparedAs_chars (c d : Char) : ComparedAs (.char c) (.char d) c d :=
  comparedAs_of_combine fun op hop => by rw [combine, (eq_comparison hop).2.1]

/-- A character beside a character is compared in a way of its own, and every other mix of integers
    and characters as integers. -/
theorem comparedAs_numbers {left right : Value} {x y : Int} (hx : number? left = some x)
    (hy : number? right = some y) : ComparedAs left right x y := by
  -- With an integer on one side the operands are compared as 32-bit integers, and two characters as
  -- characters.
  by_cases hpair : (left.kind, right.kind) ∈ integerPairs
  · obtain ⟨a, b, ha, hb, hcombine⟩ := combine_of_mem_integerPairs hpair
    obtain rfl := Option.some.inj (ha.symm.trans hx)
    obtain rfl := Option.some.inj (hb.symm.trans hy)
    have hcompared : ComparedAs left right a b :=
      comparedAs_of_combine fun op hop => by rw [hcombine, (eq_comparison hop).1]
    exact hcompared.map Int32.lt_iff_toInt_lt.symm fun _ _ => Int32.toInt_inj.mp
  · cases left with
    | char c =>
      cases right with
      | char d =>
        obtain rfl := Option.some.inj hx
        obtain rfl := Option.some.inj hy
        exact (comparedAs_chars c d).map Int.ofNat_lt
          fun _ _ heq => Char.toNat_inj.mp (Int.ofNat_inj.mp heq)
      | integer b => exact absurd (by simp [Value.kind, integerPairs]) hpair
      | _ => cases hy
    | integer a =>
      cases right with
      | integer b | char b => exact absurd (by simp [Value.kind, integerPairs]) hpair
      | _ => cases hy
    | _ => cases hx

/-! ## Strings -/

/-- Strings are compared as strings. -/
theorem comparedAs_strings (a b : String) : ComparedAs (.string a) (.string b) a b :=
  comparedAs_of_combine fun op hop => by rw [combine, (eq_comparison hop).2.2]

/-- A map into lists that keeps a linear order has the same order. -/
private theorem lt_iff_and_injective {α β : Type} [LinearOrder α] [LT β]
    [Std.Asymm fun x y : β => x < y] {f : α → List β} (hf : ∀ {a b}, a < b → f a < f b) :
    (∀ {a b}, f a < f b ↔ a < b) ∧ f.Injective := by
  refine ⟨fun {a b} => ⟨fun h => ?_, hf⟩, fun a b h => ?_⟩
  · -- The other two cases would make the images ascend the other way.
    rcases lt_trichotomy a b with hab | rfl | hba
    · exact hab
    · exact absurd h (List.lt_asymm h)
    · exact absurd h (List.lt_asymm (hf hba))
  · have hirrefl : ¬ f a < f b := h ▸ fun hlt => List.lt_asymm hlt hlt
    have hirrefl' : ¬ f b < f a := h ▸ fun hlt => List.lt_asymm hlt hlt
    rcases lt_trichotomy a b with hab | hab | hba
    · exact absurd (hf hab) hirrefl
    · exact hab
    · exact absurd (hf hba) hirrefl'

/-- Strings are compared as their bytes in UTF-8. -/
private theorem comparedAs_bytes (a b : String) :
    ComparedAs (.string a) (.string b) (Text.bytes a) (Text.bytes b) := by
  obtain ⟨hlt, hinjective⟩ := lt_iff_and_injective Text.bytes_lt_bytes
  exact (comparedAs_strings a b).map hlt hinjective

/-- Strings are compared as their code points. -/
private theorem comparedAs_codePoints (a b : String) :
    ComparedAs (.string a) (.string b) (Text.codePoints a) (Text.codePoints b) := by
  obtain ⟨hlt, hinjective⟩ := lt_iff_and_injective Text.codePoints_lt_codePoints
  exact (comparedAs_strings a b).map hlt hinjective

/-- Characters are compared as the strings of one character that they make. -/
private theorem comparedAs_singletons (c d : Char) :
    ComparedAs (.char c) (.char d) (String.singleton c) (String.singleton d) := by
  refine (comparedAs_chars c d).map (fun {a b} => ?_) fun a b h => ?_
  · rw [String.lt_iff, String.toList_singleton, String.toList_singleton, List.cons_lt_cons_iff]
    simp
  · simpa using congrArg String.toList h

/-- What two strings both begin with plays no part in their order. -/
private theorem append_lt_append_iff (a b c : String) : c ++ a < c ++ b ↔ a < b := by
  have hmono : StrictMono (c ++ ·) := by
    intro a b h
    rw [String.lt_iff] at h ⊢
    rw [String.toList_append, String.toList_append]
    exact List.append_left_lt h
  exact hmono.lt_iff_lt

/-- The string that a value is. -/
def string? : Value → Option String
  | .string s => some s
  | _ => none

/-- Values that are strings are compared as these. -/
private theorem comparedAs_of_string? {left right : Value} {a b : String}
    (ha : string? left = some a) (hb : string? right = some b) : ComparedAs left right a b := by
  cases left with
  | string a' =>
    cases right with
    | string b' =>
      cases ha
      cases hb
      exact comparedAs_strings a b
    | _ => cases hb
  | _ => cases ha

/-! ## Consistency -/

/-- Between any two values of a domain all comparisons answer, and they are those of one order, in
    which different values may be equal. -/
structure ComparesTotally (domain : Value → Prop) : Prop where
  answers {a b : Value} : domain a → domain b → ∀ op ∈ comparisons,
    ∃ answer, binary op a b = .ok (.bool answer)
  exactlyOne {a b : Value} : domain a → domain b →
    ∃! op, op ∈ [BinaryOp.less, .equal, .greater] ∧ Holds op a b
  lessEqual {a b : Value} : domain a → domain b →
    (Holds .lessEqual a b ↔ Holds .less a b ∨ Holds .equal a b)
  greaterEqual {a b : Value} : domain a → domain b →
    (Holds .greaterEqual a b ↔ Holds .greater a b ∨ Holds .equal a b)
  notEqual {a b : Value} : domain a → domain b →
    (Holds .notEqual a b ↔ ¬ Holds .equal a b)
  greater {a b : Value} : domain a → domain b → (Holds .greater a b ↔ Holds .less b a)
  equal_refl {a : Value} : domain a → Holds .equal a a
  less_trans {a b c : Value} : domain a → domain b → domain c →
    Holds .less a b → Holds .less b c → Holds .less a c
  equal_trans {a b c : Value} : domain a → domain b → domain c →
    Holds .equal a b → Holds .equal b c → Holds .equal a c
  lessEqual_trans {a b c : Value} : domain a → domain b → domain c →
    Holds .lessEqual a b → Holds .lessEqual b c → Holds .lessEqual a c

/-- In a linear order, exactly one of three relations holds. -/
private theorem exactlyOne_relation {α : Type} [LinearOrder α] (x y : α) :
    ∃! op, op ∈ [BinaryOp.less, .equal, .greater] ∧ relation op x y := by
  have hunique (found : BinaryOp) (hmem : found ∈ [BinaryOp.less, .equal, .greater])
      (hfound : relation found x y)
      (hother : ∀ op ∈ [BinaryOp.less, .equal, .greater], relation op x y → op = found) :
      ∃! op, op ∈ [BinaryOp.less, .equal, .greater] ∧ relation op x y :=
    ⟨found, ⟨hmem, hfound⟩, fun op hop => hother op hop.1 hop.2⟩
  rcases lt_trichotomy x y with h | rfl | h
  · exact hunique .less (by decide) h (by simp [relation, h.ne, h.le])
  · exact hunique .equal (by decide) rfl (by simp [relation])
  · exact hunique .greater (by decide) h (by simp [relation, h.ne', h.le])

section Key

variable {α : Type} [LinearOrder α] {key : Value → Option α}
  (h : ∀ {a b x y}, key a = some x → key b = some y → ComparedAs a b x y)

include h

/-- Values with keys are compared as their keys. -/
private theorem comparedAs_get {a b : Value} (ha : (key a).isSome) (hb : (key b).isSome) :
    ComparedAs a b ((key a).get ha) ((key b).get hb) :=
  h (Option.some_get ha).symm (Option.some_get hb).symm

/-- Values that are compared by a key in a linear order. In terms of the keys, every field is a fact
    about such orders. -/
theorem ComparesTotally.of_key : ComparesTotally fun v => (key v).isSome where
  answers ha hb op hop := by
    obtain ⟨answer, hanswer, -⟩ := comparedAs_get h ha hb op hop
    exact ⟨answer, hanswer⟩
  exactlyOne ha hb := by
    -- Of two keys exactly one is less, or they are equal, or one is greater.
    have hsubset : [BinaryOp.less, .equal, .greater] ⊆ comparisons := by decide
    refine (existsUnique_congr fun op => and_congr_right fun hop => ?_).mpr
      (exactlyOne_relation ((key _).get ha) ((key _).get hb))
    exact (comparedAs_get h ha hb).holds_iff (hsubset hop)
  lessEqual ha hb := by
    simp (disch := decide) only [(comparedAs_get h ha hb).holds_iff, relation]
  greaterEqual ha hb := by
    simp (disch := decide) only [(comparedAs_get h ha hb).holds_iff, relation]
  notEqual ha hb := by
    simp (disch := decide) only [(comparedAs_get h ha hb).holds_iff, relation, ne_eq]
  greater ha hb := by
    simp (disch := decide) only [(comparedAs_get h ha hb).holds_iff,
      (comparedAs_get h hb ha).holds_iff, relation]
  equal_refl ha := by
    simp (disch := decide) only [(comparedAs_get h ha ha).holds_iff, relation]
  less_trans ha hb hc := by
    simp (disch := decide) only [(comparedAs_get h ha hb).holds_iff,
      (comparedAs_get h hb hc).holds_iff, (comparedAs_get h ha hc).holds_iff, relation]
    exact lt_trans
  equal_trans ha hb hc := by
    simp (disch := decide) only [(comparedAs_get h ha hb).holds_iff,
      (comparedAs_get h hb hc).holds_iff, (comparedAs_get h ha hc).holds_iff, relation]
    exact Eq.trans
  lessEqual_trans ha hb hc := by
    simp (disch := decide) only [(comparedAs_get h ha hb).holds_iff,
      (comparedAs_get h hb hc).holds_iff, (comparedAs_get h ha hc).holds_iff, relation,
      ← le_iff_lt_or_eq]
    exact le_trans

end Key

/-! ## The orders -/

/-- Integers and characters, in any mix, are compared as the numbers that they are, and so
    consistently. Strings are compared consistently, as their encodings and as their code points
    are, and only a string itself is equal to it. Strings of one character are compared as the
    characters are, and what is put in front of two strings does not change which is less. -/
theorem comparisons_are_orders :
    (∀ left right x y, number? left = some x → number? right = some y →
        ComparedAs left right x y) ∧
      ComparesTotally (fun v => (number? v).isSome) ∧
      (∀ a b, ComparedAs (.string a) (.string b) (Text.bytes a) (Text.bytes b) ∧
        ComparedAs (.string a) (.string b) (Text.codePoints a) (Text.codePoints b)) ∧
      ComparesTotally (fun v => (string? v).isSome) ∧
      (∀ a b, Holds .equal (.string a) (.string b) ↔ a = b) ∧
      (∀ c d, ∀ op ∈ comparisons,
        binary op (.string (.singleton c)) (.string (.singleton d)) =
          binary op (.char c) (.char d)) ∧
      ∀ a b c, ∃ ca cb, binary .add (.string c) (.string a) = .ok ca ∧
        binary .add (.string c) (.string b) = .ok cb ∧
        (Holds .less (.string a) (.string b) ↔ Holds .less ca cb) := by
  refine ⟨fun left right x y => comparedAs_numbers, .of_key comparedAs_numbers,
    fun a b => ⟨comparedAs_bytes a b, comparedAs_codePoints a b⟩, .of_key comparedAs_of_string?,
    fun a b => ?_, fun c d op hop => ?_, fun a b c => ?_⟩
  · exact (comparedAs_strings a b).holds_iff (by decide)
  · exact (comparedAs_strings _ _).binary_eq (comparedAs_singletons c d) hop
  · refine ⟨.string (c ++ a), .string (c ++ b), rfl, rfl, ?_⟩
    rw [(comparedAs_strings a b).holds_iff (by decide),
      (comparedAs_strings (c ++ a) (c ++ b)).holds_iff (by decide)]
    exact (append_lt_append_iff a b c).symm

/-- A character between two integers, and characters of three and of four bytes. -/
theorem comparisons_are_orders_mixed :
    Holds .less (.integer 96) (.char 'a') ∧ Holds .less (.char 'a') (.integer 98) ∧
      Holds .less (.integer 96) (.integer 98) ∧
      Holds .less (.string "\uffff") (.string "😀") ∧
      Text.bytes "\uffff" < Text.bytes "😀" := by
  obtain ⟨hnumbers, htotal, hstrings, -⟩ := comparisons_are_orders
  have hleft : Holds .less (.integer 96) (.char 'a') :=
    ((hnumbers _ _ 96 97 rfl rfl).holds_iff (by decide)).mpr (show (96 : Int) < 97 by decide)
  have hright : Holds .less (.char 'a') (.integer 98) :=
    ((hnumbers _ _ 97 98 rfl rfl).holds_iff (by decide)).mpr (show (97 : Int) < 98 by decide)
  have hcodes : Text.codePoints "\uffff" < Text.codePoints "😀" := by decide
  have htexts : Holds .less (.string "\uffff") (.string "😀") :=
    ((hstrings _ _).2.holds_iff (by decide)).mpr hcodes
  exact ⟨hleft, hright, htotal.less_trans rfl rfl rfl hleft hright, htexts,
    ((hstrings _ _).1.holds_iff (by decide)).mp htexts⟩

end Operation

end Script

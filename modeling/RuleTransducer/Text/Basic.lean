/-! Texts. A text is a sequence of code points. Most code points are characters; the others are
surrogates, two of which stand for a character in UTF-16 and which stand for nothing on their own.
An escape or a lenient decoding can put one into a text all the same, and then the text cannot be
written in UTF-8. -/

namespace RuleTransducer

/-- A code point. -/
inductive CodePoint
  | char (c : Char)
  /-- The surrogate `0xD800 + offset`. -/
  | surrogate (offset : Fin 0x800)
  deriving DecidableEq

namespace CodePoint

instance : Coe Char CodePoint := ⟨char⟩

/-- The number of a code point. -/
def toNat : CodePoint → Nat
  | char c => c.toNat
  | surrogate offset => 0xD800 + offset.val

/-- The code point of a number below `0x110000`. -/
def ofNat (n : Nat) : CodePoint :=
  if 0xD800 ≤ n && n < 0xE000 then surrogate (Fin.ofNat 0x800 (n - 0xD800)) else char (Char.ofNat n)

/-- The character that a code point is. -/
def char? : CodePoint → Option Char
  | char c => some c
  | surrogate _ => none

/-- Whether a code point is a character. -/
def isScalar (c : CodePoint) : Bool := c.char?.isSome

def isDigit : CodePoint → Bool
  | char c => c.isDigit
  | surrogate _ => false

@[simp] theorem char?_char (c : Char) : (char c).char? = some c := rfl

@[simp] theorem isScalar_char (c : Char) : (char c).isScalar = true := rfl

@[simp] theorem ofNat_toNat (c : CodePoint) : ofNat c.toNat = c := by
  cases c with
  | char c =>
    have hvalid : c.toNat < 0xD800 ∨ 0xDFFF < c.toNat ∧ c.toNat < 0x110000 := c.valid
    have hrange : (0xD800 ≤ c.toNat && c.toNat < 0xE000) = false := by
      simp only [Bool.and_eq_false_iff, decide_eq_false_iff_not]
      omega
    rw [toNat, ofNat, hrange, if_neg Bool.false_ne_true, Char.ofNat_toNat]
  | surrogate offset =>
    have hrange : 0xD800 + offset.val < 0xE000 := by omega
    simp [ofNat, toNat, hrange]

end CodePoint

/-- A text. -/
structure Text where
  codePoints : Array CodePoint
  deriving Inhabited

namespace Text

def toList (s : Text) : List CodePoint := s.codePoints.toList

/-- Code points as a text. -/
def ofList (l : List CodePoint) : Text := ⟨⟨l⟩⟩

@[ext] theorem ext {s t : Text} (h : s.toList = t.toList) : s = t := congrArg ofList h

theorem toList_inj {s t : Text} : s.toList = t.toList ↔ s = t := ⟨ext, congrArg toList⟩

/-- Texts of different lengths are told apart without a look at their code points. -/
instance : DecidableEq Text := fun s t =>
  if h : s.codePoints.size = t.codePoints.size then
    decidable_of_iff _ (toList_inj (s := s) (t := t))
  else isFalse fun heq => h (congrArg (fun u => u.codePoints.size) heq)

/-- Characters as a text. -/
@[coe] def ofString (s : String) : Text := ofList (s.toList.map .char)

instance : Coe String Text := ⟨ofString⟩

instance : Append Text := ⟨fun s t => ofList (s.toList ++ t.toList)⟩

def singleton (c : CodePoint) : Text := ofList [c]

def length (s : Text) : Nat := s.codePoints.size

def isEmpty (s : Text) : Bool := s.codePoints.isEmpty

/-- Texts behind each other. -/
def join (texts : List Text) : Text := ofList (texts.flatMap toList)

/-- Texts with another between each two. -/
def intercalate (between : Text) (texts : List Text) : Text := join (texts.intersperse between)

/-- The characters of a text, unless a surrogate is among its code points. -/
def string? (s : Text) : Option String := (s.toList.mapM CodePoint.char?).map String.ofList

/-- Whether all code points of a text are characters, so that it can be written in UTF-8. -/
def isScalar (s : Text) : Bool := s.toList.all CodePoint.isScalar

@[simp] theorem toList_ofList (l : List CodePoint) : (ofList l).toList = l := rfl

@[simp] theorem ofList_toList (s : Text) : ofList s.toList = s := rfl

@[simp] theorem toList_append (s t : Text) : (s ++ t).toList = s.toList ++ t.toList := rfl

@[simp] theorem toList_empty : ("" : Text).toList = [] := rfl

@[simp] theorem toList_singleton (c : CodePoint) : (singleton c).toList = [c] := rfl

@[simp] theorem toList_ofString (s : String) : (s : Text).toList = s.toList.map .char := rfl

@[simp] theorem ofList_nil : ofList [] = "" := rfl

theorem ofList_inj {l m : List CodePoint} : ofList l = ofList m ↔ l = m :=
  (toList_inj (s := ofList l) (t := ofList m)).symm

theorem ofList_append (l m : List CodePoint) : ofList (l ++ m) = ofList l ++ ofList m := rfl

theorem singleton_eq_ofList {c : CodePoint} : singleton c = ofList [c] := rfl

@[simp] theorem length_toList {s : Text} : s.toList.length = s.length := rfl

@[simp] theorem length_append (s t : Text) : (s ++ t).length = s.length + t.length :=
  List.length_append

@[simp] theorem length_singleton (c : CodePoint) : (singleton c).length = 1 := rfl

@[simp] theorem length_ofList (l : List CodePoint) : (ofList l).length = l.length := rfl

@[simp] theorem length_ofString (s : String) : (s : Text).length = s.length := by
  rw [← length_toList, toList_ofString, List.length_map, String.length_toList]

@[simp] theorem empty_append {s : Text} : "" ++ s = s := rfl

@[simp] theorem append_empty {s : Text} : s ++ "" = s := ext (List.append_nil _)

theorem append_assoc (s t u : Text) : s ++ t ++ u = s ++ (t ++ u) := ext (List.append_assoc ..)

theorem append_right_inj (s : Text) {t u : Text} : s ++ t = s ++ u ↔ t = u := by
  rw [← toList_inj, toList_append, toList_append, List.append_cancel_left_eq, toList_inj]

@[simp] theorem toList_eq_nil_iff {s : Text} : s.toList = [] ↔ s = "" := toList_inj (t := "")

theorem append_eq_empty_iff {s t : Text} : s ++ t = "" ↔ s = "" ∧ t = "" := by
  rw [← toList_eq_nil_iff, toList_append, List.append_eq_nil_iff, toList_eq_nil_iff,
    toList_eq_nil_iff]

theorem length_eq_zero_iff {s : Text} : s.length = 0 ↔ s = "" := by
  rw [← length_toList, List.length_eq_zero_iff, toList_eq_nil_iff]

@[simp] theorem isEmpty_iff {s : Text} : s.isEmpty = true ↔ s = "" := by
  rw [isEmpty, Array.isEmpty_iff_size_eq_zero]
  exact length_eq_zero_iff

@[simp] theorem isEmpty_eq_false_iff {s : Text} : s.isEmpty = false ↔ s ≠ "" := by
  rw [← Bool.not_eq_true, isEmpty_iff]

@[simp] theorem join_nil : join [] = "" := rfl

@[simp] theorem join_cons (s : Text) (texts : List Text) : join (s :: texts) = s ++ join texts :=
  rfl

@[simp] theorem join_append (texts later : List Text) :
    join (texts ++ later) = join texts ++ join later := ext List.flatMap_append

@[simp] theorem toList_join (texts : List Text) : (join texts).toList = texts.flatMap toList := rfl

/-! ### Characters only -/

theorem ofString_injective : Function.Injective ofString := fun _ _ h =>
  String.toList_inj.mp <|
    (List.map_inj_right fun _ _ => CodePoint.char.inj).mp (congrArg toList h)

theorem ofString_append (s t : String) : (↑(s ++ t) : Text) = ↑s ++ ↑t := by
  ext1
  simp

theorem mapM_char?_eq_some_iff {l : List CodePoint} {cs : List Char} :
    l.mapM CodePoint.char? = some cs ↔ l = cs.map .char := by
  induction l generalizing cs with
  | nil => cases cs <;> simp
  | cons c l ih =>
    cases c with
    | char c =>
      cases cs with
      | nil => cases hl : l.mapM CodePoint.char? <;> simp [hl]
      | cons d cs => cases hl : l.mapM CodePoint.char? <;> simp [hl, ← ih]
    | surrogate offset => cases cs <;> simp [CodePoint.char?]

theorem string?_eq_some_iff {s : Text} {t : String} : s.string? = some t ↔ s = t := by
  rw [string?, Option.map_eq_some_iff, ← toList_inj, toList_ofString]
  constructor
  · rintro ⟨cs, hcs, rfl⟩
    rw [String.toList_ofList]
    exact mapM_char?_eq_some_iff.mp hcs
  · intro h
    exact ⟨t.toList, mapM_char?_eq_some_iff.mpr h, String.ofList_toList⟩

@[simp] theorem string?_ofString (s : String) : (s : Text).string? = some s :=
  string?_eq_some_iff.mpr rfl

@[simp] theorem isScalar_ofString (s : String) : (s : Text).isScalar = true := by
  simp [isScalar]

/-- A text is one of characters exactly if none of its code points is a surrogate. -/
theorem exists_eq_ofString_iff {s : Text} : (∃ t : String, s = t) ↔ s.isScalar = true := by
  constructor
  · rintro ⟨t, rfl⟩
    exact isScalar_ofString t
  · intro h
    refine ⟨.ofList (s.toList.filterMap CodePoint.char?), ?_⟩
    rw [← toList_inj, toList_ofString, String.toList_ofList]
    rw [isScalar] at h
    generalize s.toList = l at h ⊢
    induction l with
    | nil => rfl
    | cons c l ih =>
      obtain ⟨hc, hl⟩ := Bool.and_eq_true_iff.mp (List.all_cons.symm.trans h)
      cases c with
      | char c => exact congrArg (.char c :: ·) (ih hl)
      | surrogate offset => cases hc

theorem string?_eq_none_iff {s : Text} : s.string? = none ↔ s.isScalar = false := by
  rw [← Bool.not_eq_true, ← exists_eq_ofString_iff, Option.eq_none_iff_forall_ne_some]
  simp only [ne_eq, string?_eq_some_iff, not_exists]

@[simp] theorem isScalar_append (s t : Text) :
    (s ++ t).isScalar = (s.isScalar && t.isScalar) := List.all_append

end Text

end RuleTransducer

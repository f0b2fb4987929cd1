import Mathlib.Data.Nat.Notation
import RuleTransducer.Json.Reader
import RuleTransducer.Json.Writer

/-! Laid out documents. What is written is read back. Inside of a text every character is read from
its escape or as it stands, and around the parts of an array or an object stand only new lines with
their margins and the marks that the reader waits for. So a document is restored with its parts,
whatever stands behind it, and a document alone on its lines is decoded. Numbers are left out: no
document here has any. -/

namespace RuleTransducer

namespace Json

open Text (hexadecimal)
open Text.Utf16 (isHighSurrogate isLowSurrogate)

/-! ### Texts -/

/-- The escape of a control character has its number in four digits, and is read as the number. -/
theorem hexadecimal_control {n : ℕ} (h : n < 32) :
    ∃ a b : Char, (hexadecimal 4 n).toList = ['0', '0', a, b] ∧ hexQuad? '0' '0' a b = some n := by
  have hdigits : ∀ n < 32,
      List.replicate (4 - (Nat.toDigits 16 n).length) '0' ++ Nat.toDigits 16 n =
          ['0', '0', Nat.digitChar (n / 16), Nat.digitChar (n % 16)] ∧
        hexQuad? '0' '0' (Nat.digitChar (n / 16)) (Nat.digitChar (n % 16)) = some n := by
    decide
  obtain ⟨htext, hread⟩ := hdigits n h
  exact ⟨_, _, by rw [hexadecimal, String.toList_ofList, htext], hread⟩

/-- A unit that is no high surrogate stands alone, whatever follows. -/
theorem paired_of_not_high {unit : ℕ} (h : isHighSurrogate unit = false) (p : ℕ)
    (rest : List CodePoint) : paired p unit rest = .ok (.ofNat unit, 5) := by
  unfold paired
  split
  · simp [h]
  · rfl

theorem paired_control {c : CodePoint} (h : c.toNat < 32) (p : ℕ) (rest : List CodePoint) :
    paired p c.toNat rest = .ok (c, 5) := by
  have hhigh : isHighSurrogate c.toNat = false := by
    simp only [isHighSurrogate, Bool.and_eq_false_iff, decide_eq_false_iff_not]
    omega
  rw [paired_of_not_high hhigh, CodePoint.ofNat_toNat]

/-- A code point inside of a text is read back from what is written for it. The text has to go on,
since the reader takes no numeric escape at the end of its input. -/
theorem textFrom_escapedCodePoint (opening p : ℕ) (c next : CodePoint)
    (rest read : List CodePoint) :
    ∃ q, textFrom opening p 0 (escapedCodePoint c ++ next :: rest) read =
      textFrom opening q 0 (next :: rest) (c :: read) := by
  fun_cases escapedCodePoint c with
  -- a control character without a letter of its own
  | case8 hquote hslash _ _ _ _ _ hcontrol =>
    obtain ⟨a, b, htext, hread⟩ := hexadecimal_control hcontrol
    refine ⟨p + 6, ?_⟩
    simp [htext, textFrom, escape, hread, paired_control hcontrol]
  -- a character that stands for itself
  | case9 hquote hslash _ _ _ _ _ hcontrol =>
    exact ⟨p + 1, by simp [textFrom, hquote, hslash, hcontrol]⟩
  | _ =>
    subst_vars
    exact ⟨p + 2, rfl⟩

/-- A text is read back from between its quotes. -/
theorem textFrom_quoted (opening p : ℕ) (s rest read : List CodePoint) :
    ∃ q, textFrom opening p 0 (s.flatMap escapedCodePoint ++ .char '\x22' :: rest) read =
      .ok ⟨Text.ofList (read.reverse ++ s), q, rest⟩ := by
  induction s generalizing p read with
  | nil => exact ⟨p + 1, by simp [textFrom]⟩
  | cons c s ih =>
    obtain ⟨next, later, hlater⟩ : ∃ next later,
        s.flatMap escapedCodePoint ++ .char '\x22' :: rest = next :: later :=
      List.exists_cons_of_ne_nil (by simp)
    obtain ⟨q, hq⟩ := textFrom_escapedCodePoint opening p c next later read
    obtain ⟨q', hq'⟩ := ih q (c :: read)
    refine ⟨q', ?_⟩
    rw [List.flatMap_cons, List.append_assoc, hlater, hq, ← hlater, hq', List.reverse_cons,
      List.append_assoc]
    rfl

/-! ### Documents without numbers -/

/-- Whether a document has no numbers, no name twice in an object, and nests at most `depth`
deep. -/
inductive IsPlain : ℕ → Json → Prop
  | null (depth : ℕ) : IsPlain depth .null
  | bool (depth : ℕ) (b : Bool) : IsPlain depth (.bool b)
  | text (depth : ℕ) (s : Text) : IsPlain depth (.text s)
  | array {depth : ℕ} {elements : List Json} (h : ∀ element ∈ elements, IsPlain depth element) :
    IsPlain (depth + 1) (.array elements)
  | object {depth : ℕ} {fields : List (Text × Json)}
    (h : ∀ field ∈ fields, IsPlain depth field.2) (hnames : (fields.map Prod.fst).Nodup) :
    IsPlain (depth + 1) (.object fields)

/-- Whether a code point can begin a document: no blank, no end of an array and no byte order
mark. -/
def Begins (c : CodePoint) : Prop := isBlank c = false ∧ c ≠ ']' ∧ c ≠ '\ufeff'

instance (c : CodePoint) : Decidable (Begins c) := inferInstanceAs (Decidable (_ ∧ _))

/-- What is written of a document without numbers begins a document. -/
theorem IsPlain.exists_head {depth : ℕ} {document : Json} (h : document.IsPlain depth)
    (margin : ℕ) : ∃ c rest, layout margin document = c :: rest ∧ Begins c := by
  cases h with
  | null => exact ⟨_, _, rfl, by decide⟩
  | bool _ b => cases b <;> exact ⟨_, _, rfl, by decide⟩
  | text => exact ⟨_, _, rfl, by decide⟩
  | @array _ elements =>
    cases elements
    · exact ⟨'[', _, rfl, by decide⟩
    · exact ⟨'[', _, rfl, by decide⟩
  | @object _ fields =>
    cases fields
    · exact ⟨'\x7b', _, rfl, by decide⟩
    · exact ⟨'\x7b', _, rfl, by decide⟩

theorem skipBlanks_of_not_blank {c : CodePoint} (h : isBlank c = false) (p : ℕ)
    (rest : List CodePoint) :
    skipBlanks p (c :: rest) = (p, c :: rest) := by
  rw [skipBlanks, h]
  rfl

/-- A new line is skipped with its margin. -/
theorem skipBlanks_newLine {c : CodePoint} (h : isBlank c = false) (p margin : ℕ)
    (rest : List CodePoint) :
    skipBlanks p (newLine margin ++ c :: rest) = (p + (margin + 1), c :: rest) := by
  have hmargin (p : ℕ) :
      skipBlanks p (List.replicate margin (.char ' ') ++ c :: rest) = (p + margin, c :: rest) := by
    induction margin generalizing p with
    | zero => exact skipBlanks_of_not_blank h p rest
    | succ margin ih =>
      have hblank : isBlank ' ' = true := rfl
      rw [List.replicate_succ, List.cons_append, skipBlanks, if_pos hblank, ih]
      congr 1
      omega
  have hline : isBlank '\n' = true := rfl
  rw [newLine, List.cons_append, skipBlanks, if_pos hline, hmargin]
  congr 1
  omega

theorem skipBlanks_newLine_quotedText (p margin : ℕ) (s rest : List CodePoint) :
    skipBlanks p (newLine margin ++ (quotedText s ++ rest)) =
      (p + (margin + 1), quotedText s ++ rest) := by
  have hquote : isBlank '\x22' = false := rfl
  exact skipBlanks_newLine hquote p margin _

/-- Blanks end where a document without numbers begins. -/
theorem IsPlain.skipBlanks_layout {depth : ℕ} {document : Json} (h : document.IsPlain depth)
    (p margin : ℕ) (rest : List CodePoint) :
    skipBlanks p (layout margin document ++ rest) = (p, layout margin document ++ rest) := by
  obtain ⟨c, tail, hlayout, hblank, -⟩ := h.exists_head margin
  rw [hlayout]
  exact skipBlanks_of_not_blank hblank p _

theorem IsPlain.skipBlanks_newLine_layout {depth : ℕ} {document : Json}
    (h : document.IsPlain depth) (p margin : ℕ) (rest : List CodePoint) :
    skipBlanks p (newLine margin ++ (layout margin document ++ rest)) =
      (p + (margin + 1), layout margin document ++ rest) := by
  obtain ⟨c, tail, hlayout, hblank, -⟩ := h.exists_head margin
  rw [hlayout]
  exact skipBlanks_newLine hblank p margin _

/-- A name that is none of those before it goes to the end. -/
theorem setField_of_nodup {before later : List (Text × Json)} {name : Text} {content : Json}
    (h : ((before ++ (name, content) :: later).map Prod.fst).Nodup) :
    setField before name content = before ++ [(name, content)] := by
  induction before with
  | nil => rfl
  | cons field before ih =>
    rw [List.cons_append, List.map_cons, List.nodup_cons] at h
    have hother : field.1 ≠ name := by
      rintro rfl
      exact h.1 (by simp)
    rw [setField, if_neg hother, ih h.2, List.cons_append]

/-! ### Reading back -/

/-- Whether a document is read back from its layout, whatever stands behind it, with two calls for
each character. -/
def Restored (depth : ℕ) (document : Json) : Prop :=
  ∀ margin fuel p rest, 2 * (layout margin document).length ≤ fuel + 1 →
    ∃ q, value (fuel + 1) depth p (layout margin document ++ rest) = .ok ⟨document, q, rest⟩

theorem restored_text (depth : ℕ) (s : Text) : Restored depth (.text s) := by
  intro margin fuel p rest hfuel
  obtain ⟨q, hq⟩ := textFrom_quoted p (p + 1) s.toList rest []
  have hwritten : layout margin (.text s) ++ rest =
      .char '\x22' :: (s.toList.flatMap escapedCodePoint ++ .char '\x22' :: rest) := by
    simp [layout, atomText, quotedText]
  refine ⟨q, ?_⟩
  rw [hwritten, value, hq]
  simp

/-- The elements of an array are read back from one of them on, if each of them is. -/
theorem elements_layoutElements {depth : ℕ} {element : Json} {later : List Json}
    (hplain : ∀ e ∈ element :: later, e.IsPlain depth)
    (h : ∀ e ∈ element :: later, Restored depth e) (margin fuel p : ℕ) (rest : List CodePoint)
    (before : List Json)
    (hfuel : 2 * (layout (margin + 2) element ++ layoutElements margin later).length ≤ fuel) :
    ∃ q, elements fuel depth p
        (layout (margin + 2) element ++ layoutElements margin later ++ rest) before =
      .ok ⟨.array (before.reverse ++ element :: later), q, rest⟩ := by
  induction later generalizing element fuel p before with
  | nil =>
    simp only [List.length_append, layoutElements, List.length_singleton] at hfuel
    obtain ⟨fuel, rfl⟩ : ∃ n, fuel = n + 2 := ⟨fuel - 2, by omega⟩
    obtain ⟨q, hq⟩ := h element List.mem_cons_self (margin + 2) fuel p
      (newLine margin ++ .char ']' :: rest) (by omega)
    have hblank : isBlank ']' = false := rfl
    refine ⟨q + (margin + 1) + 1, ?_⟩
    rw [layoutElements, List.append_assoc, List.append_assoc, List.singleton_append, elements, hq]
    simp only [skipBlanks_newLine hblank, List.reverse_cons]
  | cons next later ih =>
    obtain ⟨-, hplain⟩ := List.forall_mem_cons.mp hplain
    obtain ⟨hfirst, hlater⟩ := List.forall_mem_cons.mp h
    have hwritten : layoutElements margin (next :: later) ++ rest =
        .char ',' :: (newLine (margin + 2) ++
          (layout (margin + 2) next ++ (layoutElements margin later ++ rest))) := by
      simp [layoutElements]
    simp only [List.length_append, layoutElements, List.length_cons] at hfuel
    obtain ⟨fuel, rfl⟩ : ∃ n, fuel = n + 2 := ⟨fuel - 2, by omega⟩
    obtain ⟨q, hq⟩ := hfirst (margin + 2) fuel p (layoutElements margin (next :: later) ++ rest)
      (by omega)
    obtain ⟨q', hq'⟩ := ih hplain hlater (fuel + 1) (q + 1 + (margin + 2 + 1)) (element :: before)
      (by rw [List.length_append]; omega)
    have hcomma : isBlank ',' = false := rfl
    refine ⟨q', ?_⟩
    rw [List.append_assoc, elements, hq, hwritten]
    simp only [skipBlanks_of_not_blank hcomma,
      (hplain next List.mem_cons_self).skipBlanks_newLine_layout]
    rw [← List.append_assoc, hq', List.reverse_cons, List.append_assoc]
    rfl

/-- An entry of an object is read back, and the mark behind it ends the object or goes on to the
next entry. -/
theorem members_entry {depth : ℕ} {content : Json} (hplain : content.IsPlain depth)
    (h : Restored depth content) (name : Text) (margin fuel p : ℕ) (behind : List CodePoint)
    (before : List (Text × Json)) (hfuel : 2 * (layout margin content).length ≤ fuel + 1) :
    ∃ q, ∀ q' mark rest, skipBlanks q behind = (q', mark :: rest) →
      (mark = '\x7d' → members (fuel + 2) depth p
          (quotedText name.toList ++ .char ':' :: .char ' ' ::
            (layout margin content ++ behind)) before =
        .ok ⟨.object (setField before name content), q' + 1, rest⟩) ∧
      (mark = ',' → members (fuel + 2) depth p
          (quotedText name.toList ++ .char ':' :: .char ' ' ::
            (layout margin content ++ behind)) before =
        members (fuel + 1) depth (skipBlanks (q' + 1) rest).1 (skipBlanks (q' + 1) rest).2
          (setField before name content)) := by
  obtain ⟨q, hq⟩ := textFrom_quoted p (p + 1) name.toList
    (.char ':' :: .char ' ' :: (layout margin content ++ behind)) []
  obtain ⟨q', hq'⟩ := h margin fuel (q + 1 + 1) behind hfuel
  have hquoted :
      quotedText name.toList ++ .char ':' :: .char ' ' :: (layout margin content ++ behind) =
      .char '\x22' :: (name.toList.flatMap escapedCodePoint ++
        .char '\x22' :: .char ':' :: .char ' ' :: (layout margin content ++ behind)) := by
    simp [quotedText]
  have hcolon : isBlank ':' = false := rfl
  have hspace : skipBlanks (q + 1) (.char ' ' :: (layout margin content ++ behind)) =
      (q + 1 + 1, layout margin content ++ behind) := hplain.skipBlanks_layout _ _ _
  refine ⟨q', fun end' mark rest hmark => ?_⟩
  rw [hquoted, members, hq]
  simp only [skipBlanks_of_not_blank hcolon, hspace, hq', hmark, List.reverse_nil, List.nil_append,
    Text.ofList_toList]
  constructor
  · rintro rfl
    rfl
  · rintro rfl
    rfl

/-- The fields of an object are read back from one of them on, if their contents are and no name
stands twice. -/
theorem members_layoutFields {depth : ℕ} {name : Text} {content : Json}
    {later : List (Text × Json)}
    (hplain : ∀ field ∈ (name, content) :: later, field.2.IsPlain depth)
    (h : ∀ field ∈ (name, content) :: later, Restored depth field.2) (margin fuel p : ℕ)
    (rest : List CodePoint) (before : List (Text × Json))
    (hnames : ((before ++ (name, content) :: later).map Prod.fst).Nodup)
    (hfuel : 2 * (quotedText name.toList ++ .char ':' :: .char ' ' ::
      (layout (margin + 2) content ++ layoutFields margin later)).length ≤ fuel) :
    ∃ q, members fuel depth p (quotedText name.toList ++ .char ':' :: .char ' ' ::
        (layout (margin + 2) content ++ (layoutFields margin later ++ rest))) before =
      .ok ⟨.object (before ++ (name, content) :: later), q, rest⟩ := by
  induction later generalizing name content fuel p before with
  | nil =>
    simp only [List.length_append, List.length_cons] at hfuel
    obtain ⟨fuel, rfl⟩ : ∃ n, fuel = n + 2 := ⟨fuel - 2, by omega⟩
    obtain ⟨q, hq⟩ := members_entry (hplain _ List.mem_cons_self) (h _ List.mem_cons_self) name
      (margin + 2) fuel p (layoutFields margin [] ++ rest) before (by dsimp only; omega)
    have hblank : isBlank '\x7d' = false := rfl
    have hwritten : layoutFields margin [] ++ rest = newLine margin ++ .char '\x7d' :: rest := by
      simp [layoutFields]
    rw [hwritten] at hq
    rw [hwritten, ← setField_of_nodup hnames]
    exact ⟨_, (hq _ _ _ (skipBlanks_newLine hblank _ _ _)).1 rfl⟩
  | cons next later ih =>
    obtain ⟨name', content'⟩ := next
    obtain ⟨hfirst, hrest⟩ := List.forall_mem_cons.mp h
    obtain ⟨hfirstPlain, hrestPlain⟩ := List.forall_mem_cons.mp hplain
    have hwritten : layoutFields margin ((name', content') :: later) ++ rest =
        .char ',' :: (newLine (margin + 2) ++ (quotedText name'.toList ++ .char ':' :: .char ' ' ::
          (layout (margin + 2) content' ++ (layoutFields margin later ++ rest)))) := by
      simp [layoutFields]
    simp only [layoutFields, List.length_append, List.length_cons] at hfuel
    obtain ⟨fuel, rfl⟩ : ∃ n, fuel = n + 2 := ⟨fuel - 2, by omega⟩
    obtain ⟨q, hq⟩ := members_entry hfirstPlain hfirst name (margin + 2) fuel p
      (layoutFields margin ((name', content') :: later) ++ rest) before (by dsimp only; omega)
    obtain ⟨q', hq'⟩ := ih hrestPlain hrest (fuel + 1) (q + 1 + (margin + 2 + 1))
      (before ++ [(name, content)]) (by rwa [List.append_assoc])
      (by simp only [List.length_append, List.length_cons]; omega)
    have hcomma : isBlank ',' = false := rfl
    rw [hwritten] at hq
    refine ⟨q', ?_⟩
    rw [hwritten, (hq _ _ _ (skipBlanks_of_not_blank hcomma _ _)).2 rfl, setField_of_nodup hnames,
      skipBlanks_newLine_quotedText, hq', List.append_assoc, List.singleton_append]

theorem restored_array {depth : ℕ} {items : List Json} (hplain : ∀ e ∈ items, e.IsPlain depth)
    (h : ∀ e ∈ items, Restored depth e) : Restored (depth + 1) (.array items) := by
  intro margin fuel p rest hfuel
  cases items with
  | nil =>
    have hblank : isBlank ']' = false := rfl
    have hwritten : layout margin (.array []) ++ rest = .char '[' :: .char ']' :: rest := by
      simp [layout, atomText]
    refine ⟨p + 2, ?_⟩
    rw [hwritten, value]
    simp only [skipBlanks_of_not_blank hblank]
  | cons element later =>
    simp only [layout, List.length_append, List.length_cons] at hfuel
    obtain ⟨c, tail, hhead, hblank, hclosing, -⟩ :=
      (hplain element List.mem_cons_self).exists_head (margin + 2)
    obtain ⟨q, hq⟩ := elements_layoutElements hplain h margin fuel (p + 1 + (margin + 2 + 1)) rest
      [] (by rw [List.length_append]; omega)
    have hwritten : layout margin (.array (element :: later)) ++ rest =
        .char '[' ::
          (newLine (margin + 2) ++ c :: (tail ++ (layoutElements margin later ++ rest))) := by
      simp [layout, hhead]
    refine ⟨q, ?_⟩
    rw [hwritten, value]
    simp only [skipBlanks_newLine hblank]
    split
    case h_1 heq => exact absurd (List.cons.inj heq).1 hclosing
    case h_2 =>
      rw [hhead, List.append_assoc] at hq
      exact hq

theorem restored_object {depth : ℕ} {fields : List (Text × Json)}
    (hplain : ∀ field ∈ fields, field.2.IsPlain depth)
    (h : ∀ field ∈ fields, Restored depth field.2) (hnames : (fields.map Prod.fst).Nodup) :
    Restored (depth + 1) (.object fields) := by
  intro margin fuel p rest hfuel
  cases fields with
  | nil =>
    have hblank : isBlank '\x7d' = false := rfl
    have hwritten : layout margin (.object []) ++ rest = .char '\x7b' :: .char '\x7d' :: rest := by
      simp [layout, atomText]
    refine ⟨p + 2, ?_⟩
    rw [hwritten, value]
    simp only [skipBlanks_of_not_blank hblank]
  | cons field later =>
    obtain ⟨name, content⟩ := field
    simp only [layout, List.length_append, List.length_cons] at hfuel
    obtain ⟨q, hq⟩ := members_layoutFields hplain h margin fuel (p + 1 + (margin + 2 + 1)) rest []
      hnames (by simp only [List.length_append, List.length_cons]; omega)
    have hwritten : layout margin (.object ((name, content) :: later)) ++ rest =
        .char '\x7b' :: (newLine (margin + 2) ++
          (quotedText name.toList ++ .char ':' :: .char ' ' ::
            (layout (margin + 2) content ++ (layoutFields margin later ++ rest)))) := by
      simp [layout]
    refine ⟨q, ?_⟩
    rw [hwritten, value]
    simp only [skipBlanks_newLine_quotedText]
    exact hq

/-- A document without numbers is read back from its layout. -/
theorem IsPlain.restored {depth : ℕ} {document : Json} (h : document.IsPlain depth) :
    Restored depth document := by
  induction h with
  | null =>
    intro margin fuel p rest hfuel
    unfold value
    exact ⟨p + 4, rfl⟩
  | bool _ b =>
    intro margin fuel p rest hfuel
    unfold value
    cases b
    · exact ⟨p + 5, rfl⟩
    · exact ⟨p + 4, rfl⟩
  | text depth s => exact restored_text depth s
  | array hplain ih => exact restored_array hplain ih
  | object hplain hnames ih => exact restored_object hplain ih hnames

/-- A document without numbers that is laid out and ended like a line is read as one document. -/
theorem decodeWithin_indented {depth : ℕ} {document : Json} (h : document.IsPlain depth) :
    decodeWithin depth (document.indented ++ "\n").toList = .ok document := by
  obtain ⟨c, tail, hhead, -, -, hmark⟩ := h.exists_head 0
  have htext : (document.indented ++ "\n").toList = layout 0 document ++ [.char '\n'] := by
    rw [Text.toList_append, indented, Text.toList_ofList]
    rfl
  obtain ⟨q, hq⟩ := h.restored 0
    (2 * (layout 0 document ++ [CodePoint.char '\n']).length + 1) 0 ['\n']
    (by rw [List.length_append]; omega)
  rw [htext]
  unfold decodeWithin
  split
  case h_1 heq =>
    rw [hhead] at heq
    exact absurd (List.cons.inj heq).1 hmark
  case h_2 =>
    unfold documentWithin
    rw [h.skipBlanks_layout]
    dsimp only
    rw [hq]
    rfl

end Json

end RuleTransducer

import Mathlib.Data.Nat.Notation
import RuleTransducer.Command.Run

/-! Nesting. A reader that may go one level deeper reads what it read before: the depth is only
looked at where an array or an object opens, and there it is one less for what is inside. So a
rules file that is read to be compiled reads the same to be validated. -/

namespace RuleTransducer

namespace Json

/-- Whether readers of parts with the same fuel keep what they read one level deeper. -/
structure Deepens (fuel : ℕ) : Prop where
  value (depth p : ℕ) (input : List CodePoint) (read : Parsed Json) :
    value fuel depth p input = .ok read → Json.value fuel (depth + 1) p input = .ok read
  elements (depth p : ℕ) (input : List CodePoint) (before : List Json) (read : Parsed Json) :
    elements fuel depth p input before = .ok read →
      Json.elements fuel (depth + 1) p input before = .ok read
  members (depth p : ℕ) (input : List CodePoint) (before : List (Text × Json))
    (read : Parsed Json) :
    members fuel depth p input before = .ok read →
      Json.members fuel (depth + 1) p input before = .ok read

variable {fuel : ℕ}

theorem Deepens.value_succ (h : Deepens fuel) {depth p : ℕ} {input : List CodePoint}
    {read : Parsed Json} (hread : Json.value (fuel + 1) depth p input = .ok read) :
    Json.value (fuel + 1) (depth + 1) p input = .ok read := by
  unfold Json.value at hread ⊢
  split at hread
  case h_1 => exact hread
  case h_2 =>
    split at hread
    · cases hread
    · dsimp only at hread ⊢
      split at hread
      · exact hread
      · exact h.elements _ _ _ _ _ hread
  case h_3 =>
    split at hread
    · cases hread
    · dsimp only at hread ⊢
      split at hread
      · exact hread
      · exact h.members _ _ _ _ _ hread
  case h_4 => exact hread

theorem Deepens.elements_succ (h : Deepens fuel) {depth p : ℕ} {input : List CodePoint}
    {before : List Json} {read : Parsed Json}
    (hread : Json.elements (fuel + 1) depth p input before = .ok read) :
    Json.elements (fuel + 1) (depth + 1) p input before = .ok read := by
  unfold Json.elements at hread ⊢
  split at hread
  case h_1 => cases hread
  case h_2 element helement =>
    rw [h.value _ _ _ _ helement]
    dsimp only at hread ⊢
    split at hread
    · exact hread
    · exact h.elements _ _ _ _ _ hread
    · cases hread

theorem Deepens.members_succ (h : Deepens fuel) {depth p : ℕ} {input : List CodePoint}
    {before : List (Text × Json)} {read : Parsed Json}
    (hread : Json.members (fuel + 1) depth p input before = .ok read) :
    Json.members (fuel + 1) (depth + 1) p input before = .ok read := by
  unfold Json.members at hread ⊢
  split at hread
  case h_2 => cases hread
  case h_1 =>
    dsimp only
    split at hread
    case h_1 => cases hread
    case h_2 =>
      dsimp only at hread ⊢
      split at hread
      case h_2 => cases hread
      case h_1 =>
        split at hread
        case h_1 => cases hread
        case h_2 content hcontent =>
          rw [h.value _ _ _ _ hcontent]
          dsimp only at hread ⊢
          split at hread
          · exact hread
          · exact h.members _ _ _ _ _ hread
          · cases hread

theorem deepens (fuel : ℕ) : Deepens fuel := by
  induction fuel with
  | zero =>
    refine ⟨fun _ _ _ _ h => ?_, fun _ _ _ _ _ h => ?_, fun _ _ _ _ _ h => ?_⟩
    · unfold Json.value at h
      cases h
    · unfold Json.elements at h
      cases h
    · unfold Json.members at h
      cases h
  | succ fuel ih =>
    exact ⟨fun _ _ _ _ => ih.value_succ, fun _ _ _ _ _ => ih.elements_succ,
      fun _ _ _ _ _ => ih.members_succ⟩

theorem documentWithin_succ {depth : ℕ} {input : List CodePoint} {document : Json}
    (h : documentWithin depth input = .ok document) :
    documentWithin (depth + 1) input = .ok document := by
  unfold documentWithin at h ⊢
  dsimp only at h ⊢
  split at h
  case h_1 => cases h
  case h_2 read hread =>
    rw [(deepens _).value _ _ _ _ hread]
    exact h

theorem decodeWithin_succ {depth : ℕ} {input : List CodePoint} {document : Json}
    (h : decodeWithin depth input = .ok document) :
    decodeWithin (depth + 1) input = .ok document := by
  unfold decodeWithin at h ⊢
  split at h
  case h_1 => cases h
  case h_2 => exact documentWithin_succ h

end Json

theorem RulesFile.ofContent_succ {depth : ℕ} {content : FileContent} {rules : List Datum}
    (h : ofContent depth content = .ok rules) : ofContent (depth + 1) content = .ok rules := by
  unfold ofContent at h ⊢
  split at h
  case h_1 => cases h
  case h_2 =>
    split at h
    case h_2 => cases h
    case h_1 =>
      unfold ofText at h ⊢
      dsimp only at h ⊢
      split at h
      case h_2 => cases h
      case h_1 document hdocument =>
        rw [Json.decodeWithin_succ hdocument]
        exact h

namespace Command

/-- What is read to be compiled is read to be validated. -/
theorem ofContent_validatedNesting {content : FileContent} {rules : List Datum}
    (h : RulesFile.ofContent compiledNesting content = .ok rules) :
    RulesFile.ofContent validatedNesting content = .ok rules := RulesFile.ofContent_succ h

end Command

end RuleTransducer

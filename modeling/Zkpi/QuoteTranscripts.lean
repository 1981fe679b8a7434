import Zkpi.QuoteStatement

/-!
# The transcripts of one quote proof

Every sub-proof of a quote proof starts from a label and a context of its own.
-/

namespace Zkpi.QuoteTranscripts

open ByteText PedersenSigma BitRange QuoteStatement List

/-- A leaf of a range proof: a bit, which has an index of two bytes, or the link. -/
inductive Leaf where
  | bit (index : UInt16)
  | link

def Leaf.context (base : Bytes) : Leaf → Bytes
  | bit index => base ++ utf8 ":bit:" ++ beBytes 2 index.toNat
  | link => suffixedContext base ":link"

variable (context : Bytes)

/-- Who proves what. -/
inductive Role where
  | part (maker : UInt64) (name : String)
  | gateBit (maker : UInt64) (test : String)
  | gateProduct (maker : UInt64) (test : String)
  | gateRange (maker : UInt64) (test : String) (leaf : Leaf)
  | minimalityRange (maker : UInt64) (leaf : Leaf)
  | whole (name : String)

def Role.transcript : Role → Transcript
  | part maker name => tag context maker.toNat name
  | gateBit maker test => gateBitTranscript (gateContext context maker.toNat test)
  | gateProduct maker test => gateProductTranscript (gateContext context maker.toNat test)
  | gateRange maker test leaf =>
    componentTranscript (leaf.context (gateRangeContext context maker.toNat test))
  | minimalityRange maker leaf =>
    componentTranscript (leaf.context (minimalityContext context maker.toNat))
  | whole name => QuoteStatement.whole context name

/-- The label of a role's transcript. -/
def Role.label : Role → String
  | part .. | whole .. => "qomm:quote:v1"
  | gateBit .. => "qomm:quote:gate:bit"
  | gateProduct .. => "qomm:quote:gate:prod"
  | gateRange .. | minimalityRange .. => "qomm:bitrange:v1"

theorem transcript_label (role : Role) : (role.transcript context).label = utf8 role.label := by
  cases role <;> rfl

variable {context} {maker : UInt64} {leaf' : Leaf}

theorem gateContext_inj
    (h : gateContext context maker.toNat test = gateContext context maker'.toNat test') :
    maker = maker' ∧ test = test' := by
  simp only [gateContext, append_assoc, append_cancel_left_eq] at h
  obtain ⟨hmaker, htest⟩ := append_inj h (by simp)
  exact ⟨toNat_inj_of_beBytes hmaker, utf8_inj (append_cancel_left htest)⟩

theorem gateRangeContext_ne :
    gateRangeContext context index test ≠ minimalityContext context index' := by
  have hgate : utf8 ":mm:" = [58, 109, 109, 58] := by decide
  have hminimality : utf8 ":min:" = [58, 109, 105, 110, 58] := by decide
  simp [gateRangeContext, gateContext, minimalityContext, hgate, hminimality]

/-- The fifth byte from the end tells a bit from the link. -/
theorem bit_ne_link : Leaf.context base (.bit index) ≠ Leaf.context base' .link := by
  intro h
  have hbyte := congrArg (fun bytes => bytes.reverse[4]?) h
  have hbit : utf8 ":bit:" = [58, 98, 105, 116, 58] := by decide
  have hlink : utf8 ":link" = [58, 108, 105, 110, 107] := by decide
  simp [Leaf.context, suffixedContext, hbit, hlink, beBytes, range_succ] at hbyte

theorem leafContext_inj (h : leaf.context base = leaf'.context base') :
    base = base' ∧ leaf = leaf' := by
  cases leaf <;> cases leaf'
  case bit.bit i j =>
    obtain ⟨hbase, hindex⟩ := append_inj' h (by simp)
    have hij : i = j := UInt16.toNat_inj.mp (beBytes_inj i.toNat_lt j.toNat_lt hindex)
    exact ⟨append_cancel_right hbase, congrArg Leaf.bit hij⟩
  case link.link => exact ⟨append_cancel_right h, rfl⟩
  case bit.link => exact absurd h bit_ne_link
  case link.bit => exact absurd h.symm bit_ne_link

/-- Two roles start with the same label and messages only if they are the same role of the same
maker and bit, whatever the tests and parts are called. -/
theorem transcripts_apart (context : Bytes) (a b : Role) :
    (a.transcript context).label = (b.transcript context).label ∧
      (a.transcript context).messages <+: (b.transcript context).messages ↔ a = b := by
  refine ⟨fun ⟨hlabel, hmessages⟩ => ?_, fun h => by simp [h]⟩
  rw [transcript_label, transcript_label] at hlabel
  have hroles := utf8_inj hlabel
  cases a <;> cases b <;> simp [Role.label] at hroles
  all_goals simp [Role.transcript, tag, QuoteStatement.whole, gateBitTranscript,
    gateProductTranscript, componentTranscript, Transcript.appendMessage, Transcript.new]
    at hmessages
  case part.part =>
    have hmaker := congrArg reverse hmessages.1
    simp only [leBytes, ← map_reverse] at hmaker
    rw [toNat_inj_of_beBytes hmaker, utf8_inj hmessages.2]
  case whole.whole => rw [utf8_inj hmessages]
  case whole.part => exact absurd (utf8_inj hmessages.1) (by decide)
  case gateBit.gateBit | gateProduct.gateProduct =>
    obtain ⟨rfl, rfl⟩ := gateContext_inj hmessages
    rfl
  case gateRange.minimalityRange =>
    exact absurd (leafContext_inj hmessages).1 gateRangeContext_ne
  case minimalityRange.gateRange =>
    exact absurd (leafContext_inj hmessages).1.symm gateRangeContext_ne
  case gateRange.gateRange =>
    obtain ⟨hbase, rfl⟩ := leafContext_inj hmessages
    obtain ⟨rfl, rfl⟩ := gateContext_inj (append_cancel_right hbase)
    rfl
  case minimalityRange.minimalityRange =>
    obtain ⟨hbase, rfl⟩ := leafContext_inj hmessages
    rw [toNat_inj_of_beBytes (append_cancel_left hbase)]

end Zkpi.QuoteTranscripts

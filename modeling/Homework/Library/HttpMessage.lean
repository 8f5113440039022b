import Homework.Library.Decimal
import Homework.Library.Lines

/-!
# Framing of HTTP responses

A response is a status line, header fields, a blank line and a body. Its bytes determine the fields
and the body, since a head is made of lines and ends at the first blank one
(`Response.eq_of_bytes_eq`). It is well framed if it has one `Content-Length` field whose number is
the length of the body; so whether bytes are a well framed response can be read off any way to take
them apart (`wellFramed_iff`).
-/

set_option autoImplicit false
set_option relaxedAutoImplicit false

namespace Homework.Library.HttpMessage

open CString Decimal Lines

/-- The end of a line. -/
def crlf : List UInt8 := [13, 10]

/-- A header field. Its name holds no colon, and it is one line. -/
@[ext] structure Field where
  name : List UInt8
  value : List UInt8
  name_ne_nil : name ≠ []
  colon_notMem : (58 : UInt8) ∉ name
  name_oneLine : (10 : UInt8) ∉ name
  value_oneLine : (10 : UInt8) ∉ value

/-- The line of a field. -/
def Field.line (field : Field) : List UInt8 := field.name ++ 58 :: 32 :: (field.value ++ crlf)

/-- A status line without the end of the line: the version, a code of three digits, and a reason. -/
def IsStatus (status : List UInt8) : Prop :=
  ∃ code reason, code.length = 3 ∧ code.all isDigit = true ∧ (10 : UInt8) ∉ reason ∧
    status = ascii "HTTP/1.1 " ++ (code ++ 32 :: reason)

/-- A response. -/
structure Response where
  status : List UInt8
  fields : List Field
  body : List UInt8
  isStatus : IsStatus status

namespace Response

/-- The lines of a response in front of the blank line. -/
def head (response : Response) : List (List UInt8) :=
  (response.status ++ crlf) :: response.fields.map Field.line

/-- The bytes of a response. -/
def bytes (response : Response) : List UInt8 :=
  response.head.flatten ++ (crlf ++ response.body)

/-- The values of the `Content-Length` fields. -/
def contentLengths (response : Response) : List (List UInt8) :=
  (response.fields.filter fun field ↦ field.name = ascii "Content-Length").map Field.value

/-- The response has one `Content-Length` field, a number, which is the length of the body. -/
def Framed (response : Response) : Prop :=
  ∃ digits, response.contentLengths = [digits] ∧ digits ≠ [] ∧ digits.all isDigit = true ∧
    numberOf digits = response.body.length

end Response

/-- The bytes are one well framed response. -/
def WellFramed (bytes : List UInt8) : Prop :=
  ∃ response : Response, response.bytes = bytes ∧ response.Framed

/-! ### Taking responses apart -/

theorem isLine_append_crlf {text : List UInt8} (htext : (10 : UInt8) ∉ text) :
    IsLine 10 (text ++ crlf) := by
  refine ⟨text ++ [13], ?_, (List.append_assoc text [13] [10]).symm⟩
  rw [List.mem_append, not_or]
  exact ⟨htext, by decide⟩

theorem isLine_crlf : IsLine 10 crlf := isLine_append_crlf List.not_mem_nil

/-- The line of a field is a line, and not a blank one. -/
theorem Field.isLine_line (field : Field) : IsLine 10 field.line ∧ field.line ≠ crlf := by
  have hline : field.line = (field.name ++ 58 :: 32 :: field.value) ++ crlf := by
    rw [Field.line, List.append_assoc]
    rfl
  constructor
  · rw [hline]
    refine isLine_append_crlf ?_
    simp [field.name_oneLine, field.value_oneLine]
  · intro hblank
    have hlength := congrArg List.length hblank
    rw [hline, List.length_append, List.length_append] at hlength
    simp at hlength

/-- A line determines its field. -/
theorem Field.line_injective : Function.Injective Field.line := by
  intro field field' heq
  obtain ⟨hname, hrest⟩ := eq_of_append_stop field.colon_notMem field'.colon_notMem heq
  exact Field.ext hname (List.append_cancel_right (List.cons.inj hrest).2)

theorem IsStatus.oneLine {status : List UInt8} (hstatus : IsStatus status) :
    (10 : UInt8) ∉ status ∧ status ≠ [] := by
  obtain ⟨code, reason, -, hcode, hreason, rfl⟩ := hstatus
  have hdigits : (10 : UInt8) ∉ code := fun hmem ↦
    absurd (List.all_eq_true.mp hcode 10 hmem) (by decide)
  have hversion : (10 : UInt8) ∉ ascii "HTTP/1.1 " := by decide
  refine ⟨?_, List.append_ne_nil_of_left_ne_nil (by decide) _⟩
  simp [hversion, hdigits, hreason]

/-- The lines of a head are lines, and none is blank. -/
theorem Response.isLine_head (response : Response) :
    ∀ line ∈ response.head, IsLine 10 line ∧ line ≠ crlf := by
  intro line hline
  rcases List.mem_cons.mp hline with rfl | hfield
  · obtain ⟨honeLine, hne⟩ := response.isStatus.oneLine
    refine ⟨isLine_append_crlf honeLine, fun hblank ↦ hne ?_⟩
    exact List.append_cancel_right (hblank.trans (List.nil_append crlf).symm)
  · obtain ⟨field, -, rfl⟩ := List.mem_map.mp hfield
    exact field.isLine_line

/-- The bytes of a response determine its fields and its body. -/
theorem Response.eq_of_bytes_eq {response response' : Response}
    (heq : response.bytes = response'.bytes) :
    response.fields = response'.fields ∧ response.body = response'.body := by
  obtain ⟨hhead, hbody⟩ :=
    eq_of_flatten_append isLine_crlf response.isLine_head response'.isLine_head heq
  exact ⟨Field.line_injective.list_map (List.cons.inj hhead).2, hbody⟩

/-- Whether bytes are well framed can be read off any response that they are the bytes of. -/
theorem wellFramed_iff (response : Response) : WellFramed response.bytes ↔ response.Framed := by
  constructor
  · rintro ⟨other, hbytes, hframed⟩
    obtain ⟨hfields, hbody⟩ := Response.eq_of_bytes_eq hbytes
    unfold Response.Framed Response.contentLengths at hframed ⊢
    rwa [hfields, hbody] at hframed
  · exact fun hframed ↦ ⟨response, rfl, hframed⟩

end Homework.Library.HttpMessage

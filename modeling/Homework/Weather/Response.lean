import Homework.Library.Cells
import Homework.Weather.Weather

/-!
# Collecting the response

`get_serialized_weather` lets libcurl fetch the document. libcurl is not part of the program: it is
what it does with a request, the chunks it hands to `WriteMemoryCallback` one after another, and
whether the transfer succeeds when the callback takes them all. Each call of the callback makes the
buffer larger, puts the chunk behind what is there, and a terminator behind the chunk. The buffer
before the first call is one byte that nobody writes, so that the string is there exactly when the
callback was called (`getSerializedWeather_iff`).
-/

set_option autoImplicit false
set_option relaxedAutoImplicit false

namespace Homework.Weather

open Homework.Library.ByteBuffer Homework.Library.CString Homework.Library.Cells

/-- The arguments of a call of `WriteMemoryCallback`. The contents are an object in memory, which
has less than 2⁶³ bytes. -/
structure Chunk where
  contents : List UInt8
  size : UInt64
  nmemb : UInt64
  length_eq : contents.length = size.toNat * nmemb.toNat
  length_lt : contents.length < 2 ^ 63

/-- `struct MemoryStruct`, with `none` for `NULL`. -/
structure MemoryStruct where
  memory : Option CellArray
  size : UInt64

/-- What `curl_easy_perform` does with a request. -/
structure Transfer where
  chunks : List Chunk
  completes : Bool

def url : Text := ascii "https://wttr.in/"
def options : Text := ascii "?format=j1&lang=ru"

section Source

variable (allocator : Allocator)

/-- `WriteMemoryCallback`, with the new `MemoryStruct` and the return value. -/
def writeMemoryCallback (chunk : Chunk) (mem : MemoryStruct) :
    Except CellFault (MemoryStruct × UInt64) :=
  let realsize := chunk.size * chunk.nmemb
  let wanted := mem.size + realsize + 1
  if allocator.grants wanted.toNat then do
    let ptr := resize (mem.memory.getD []) wanted.toNat
    let ptr ← write ptr mem.size.toNat (chunk.contents.take realsize.toNat)
    let size := mem.size + realsize
    let ptr ← write ptr size.toNat [0]
    return (⟨some ptr, size⟩, realsize)
  else return (mem, 0)

def getRequest (location : Text) : Option Text :=
  if allocator.grants (url.length + location.length + options.length + 1) then
    some (url ++ location ++ options)
  else none

/-- `curl_easy_perform`, up to the first chunk that the callback does not take as a whole. The
result says whether it is `CURLE_OK`. -/
def perform (completes : Bool) : MemoryStruct → List Chunk → Except CellFault (MemoryStruct × Bool)
  | mem, [] => return (mem, completes)
  | mem, chunk :: chunks => do
    let (mem, taken) ← writeMemoryCallback allocator chunk mem
    if taken = chunk.size * chunk.nmemb then perform completes mem chunks
    else return (mem, false)

/-- `chunk` before the transfer. -/
def emptyMemory : MemoryStruct where
  memory := if allocator.grants 1 then some (fresh 1) else none
  size := 0

/-- `get_serialized_weather`, with `none` for `NULL`. -/
def getSerializedWeather (curl : Text → Transfer) (location : Text) :
    Except CellFault (Option CellArray) :=
  match getRequest allocator location with
  | none => return none
  | some request => do
    let (mem, succeeds) ← perform allocator (curl request).completes (emptyMemory allocator)
      (curl request).chunks
    if succeeds then return mem.memory else return none

end Source

/-! ### What is collected -/

/-- The contents of some chunks, one behind another. -/
def joined (chunks : List Chunk) : List UInt8 := (chunks.map Chunk.contents).flatten

/-- A buffer that was written as a whole, with some text and a terminator behind it. -/
structure IsString (memory : CellArray) (text : List UInt8) : Prop where
  initialised : none ∉ memory
  content : memory.take text.length = text.map some
  terminated : memory[text.length]? = some (some 0)

/-- All reallocations for some chunks succeed, when some content is there already. -/
def Served (allocator : Allocator) (content : List UInt8) (chunks : List Chunk) : Prop :=
  ∀ before, before <+: chunks → before ≠ [] →
    allocator.grants ((content ++ joined before).length + 1) = true

/-- The buffer starts with some content. -/
structure Collects (mem : MemoryStruct) (content : List UInt8) : Prop where
  size : mem.size.toNat = content.length
  length_lt : content.length < 2 ^ 63
  length_le : content.length ≤ (mem.memory.getD []).length
  content : (mem.memory.getD []).take content.length = content.map some

/-- The buffer is some content with a terminator. -/
def Terminated (mem : MemoryStruct) (content : List UInt8) : Prop :=
  mem.memory = some ((content ++ [0]).map some)

section Collect

variable {allocator : Allocator} {mem next : MemoryStruct} {content : List UInt8} {chunk : Chunk}
  {chunks : List Chunk}

theorem isString_map (text : List UInt8) : IsString ((text ++ [0]).map some) text where
  initialised := by simp
  content := by
    rw [List.map_append]
    exact List.take_left' (List.length_map _)
  terminated := by simp

theorem collects_emptyMemory : Collects (emptyMemory allocator) [] :=
  ⟨rfl, by decide, Nat.zero_le _, rfl⟩

theorem Chunk.toNat_realsize (chunk : Chunk) :
    (chunk.size * chunk.nmemb).toNat = chunk.contents.length := by
  have hlength := chunk.length_lt
  rw [UInt64.toNat_mul, ← chunk.length_eq]
  omega

/-- A call of the callback puts the chunk and a terminator behind the content. -/
theorem Collects.writeMemoryCallback (hcollects : Collects mem content)
    (hgrants : allocator.grants ((content ++ chunk.contents).length + 1) = true) :
    ∃ next, writeMemoryCallback allocator chunk mem = .ok (next, chunk.size * chunk.nmemb) ∧
      Collects next (content ++ chunk.contents) ∧ Terminated next (content ++ chunk.contents) := by
  have hlimit := allocator.lt_of_grants _ hgrants
  have hsize : (mem.size + chunk.size * chunk.nmemb).toNat =
      (content ++ chunk.contents).length := by
    rw [UInt64.toNat_add, hcollects.size, chunk.toNat_realsize, ← List.length_append]
    omega
  have hwanted : (mem.size + chunk.size * chunk.nmemb + 1).toNat =
      (content ++ chunk.contents).length + 1 := by
    have hone : (1 : UInt64).toNat = 1 := rfl
    rw [UInt64.toNat_add, hsize, hone]
    omega
  have hcontents : chunk.contents.take (chunk.size * chunk.nmemb).toNat = chunk.contents := by
    rw [chunk.toNat_realsize, List.take_length]
  have hle : content.length ≤ (content ++ chunk.contents).length + 1 := by
    rw [List.length_append]
    omega
  have htake : (resize (mem.memory.getD []) ((content ++ chunk.contents).length + 1)).take
      content.length = content.map some := by
    rw [take_resize hcollects.length_le hle, hcollects.content]
  obtain ⟨middle, hmiddle, hlast⟩ := write_string htake (length_resize _ _)
  have hcall : Weather.writeMemoryCallback allocator chunk mem =
      .ok (⟨some ((content ++ chunk.contents ++ [0]).map some),
        mem.size + chunk.size * chunk.nmemb⟩, chunk.size * chunk.nmemb) := by
    rw [Weather.writeMemoryCallback]
    simp only [hwanted, if_pos hgrants, hcollects.size, hcontents, hmiddle, ok_bind, hsize, hlast]
    rfl
  refine ⟨_, hcall, ⟨hsize, by omega, ?_, ?_⟩, rfl⟩
  · rw [Option.getD_some, List.length_map]
    exact (List.sublist_append_left _ _).length_le
  · rw [Option.getD_some, List.map_append]
    exact List.take_left' (List.length_map _)

/-- The transfer collects all chunks. -/
theorem Collects.perform (hcollects : Collects mem content)
    (hserved : Served allocator content chunks) (hchunks : chunks ≠ []) (completes : Bool) :
    ∃ next, perform allocator completes mem chunks = .ok (next, completes) ∧
      Terminated next (content ++ joined chunks) := by
  induction chunks generalizing mem content with
  | nil => exact absurd rfl hchunks
  | cons chunk chunks ih =>
    have hone := hserved [chunk] (List.cons_prefix_cons.mpr ⟨rfl, List.nil_prefix⟩)
      (List.cons_ne_nil _ _)
    have hsingle : joined [chunk] = chunk.contents := List.append_nil _
    rw [hsingle] at hone
    obtain ⟨next, hcall, hnext, hterminated⟩ := hcollects.writeMemoryCallback hone
    have hjoined : content ++ joined (chunk :: chunks) =
        content ++ chunk.contents ++ joined chunks := (List.append_assoc _ _ _).symm
    simp only [Weather.perform, hcall, ok_bind, if_true, hjoined]
    rcases chunks with _ | ⟨second, rest⟩
    · exact ⟨next, rfl, by rwa [show joined [] = [] from rfl, List.append_nil]⟩
    · refine ih hnext (fun before hbefore hne ↦ ?_) (List.cons_ne_nil _ _)
      have hlater := hserved (chunk :: before) (List.cons_prefix_cons.mpr ⟨rfl, hbefore⟩)
        (List.cons_ne_nil _ _)
      have hbefore' : content ++ joined (chunk :: before) =
          content ++ chunk.contents ++ joined before := (List.append_assoc _ _ _).symm
      rwa [hbefore'] at hlater

end Collect

/-! ### The string -/

section Result

variable {allocator : Allocator} {curl : Text → Transfer} {location request : Text}

/-- Without a chunk the byte of the buffer is not written. -/
theorem not_isString_empty (text : List UInt8) (memory : CellArray)
    (hmemory : (emptyMemory allocator).memory = some memory) : ¬IsString memory text := by
  intro hstring
  rw [emptyMemory] at hmemory
  split at hmemory
  · obtain rfl := Option.some.inj hmemory
    exact hstring.initialised List.mem_cons_self
  · exact absurd hmemory nofun

theorem getSerializedWeather_of_ne_nil (hrequest : getRequest allocator location = some request)
    (hcompletes : (curl request).completes = true)
    (hserved : Served allocator [] (curl request).chunks) (hchunks : (curl request).chunks ≠ []) :
    getSerializedWeather allocator curl location =
      .ok (some ((joined (curl request).chunks ++ [0]).map some)) := by
  have hempty : Collects (emptyMemory allocator) [] := collects_emptyMemory
  obtain ⟨next, hperform, hterminated⟩ := hempty.perform hserved hchunks true
  simp only [getSerializedWeather, hrequest, hcompletes, hperform, ok_bind, if_true]
  rw [hterminated]
  rfl

/-- `get_serialized_weather` returns the concatenation of the chunks as a string exactly when there
is a chunk. Assumes: the request fits in memory, the transfer succeeds, and so do all
reallocations. -/
theorem getSerializedWeather_iff (hrequest : getRequest allocator location = some request)
    (hcompletes : (curl request).completes = true)
    (hserved : Served allocator [] (curl request).chunks) :
    (∃ memory, getSerializedWeather allocator curl location = .ok (some memory) ∧
      IsString memory (joined (curl request).chunks)) ↔ (curl request).chunks ≠ [] := by
  constructor
  · rintro ⟨memory, hresult, hstring⟩ hnone
    simp only [getSerializedWeather, hrequest, hcompletes, hnone] at hresult
    exact not_isString_empty _ memory (Except.ok.inj hresult) hstring
  · intro hchunks
    exact ⟨_, getSerializedWeather_of_ne_nil hrequest hcompletes hserved hchunks,
      isString_map (joined (curl request).chunks)⟩

/-- `print_weather` reads what the server sent, up to the first zero. -/
theorem readString_getSerializedWeather
    (hrequest : getRequest allocator location = some request)
    (hcompletes : (curl request).completes = true)
    (hserved : Served allocator [] (curl request).chunks) (hchunks : (curl request).chunks ≠ []) :
    ∃ memory, getSerializedWeather allocator curl location = .ok (some memory) ∧
      readString memory = .ok (cString (joined (curl request).chunks)) := by
  refine ⟨_, getSerializedWeather_of_ne_nil hrequest hcompletes hserved hchunks, ?_⟩
  have hread := readString_eq_cString (joined (curl request).chunks) []
  rwa [List.append_nil] at hread

end Result

/-! ### An answer in two chunks, and one without a body -/

/-- The answer `{}`, byte by byte. -/
def twoChunks (_ : Text) : Transfer where
  chunks := [⟨[123], 1, 1, rfl, by decide⟩, ⟨[125], 1, 1, rfl, by decide⟩]
  completes := true

/-- A transfer that succeeds without a body. -/
def noBody (_ : Text) : Transfer where
  chunks := []
  completes := true

theorem served_generous {chunks : List Chunk} (hlength : (joined chunks).length + 1 < 2 ^ 63) :
    Served generous [] chunks := by
  rintro before ⟨rest, rfl⟩ -
  rw [joined, List.map_append, List.flatten_append, List.length_append] at hlength
  have hless : ([] ++ joined before).length + 1 < 2 ^ 63 := by
    rw [List.nil_append, joined]
    omega
  exact decide_eq_true hless

theorem getRequest_generous : getRequest generous (ascii "Moscow") =
    some (url ++ ascii "Moscow" ++ options) := by
  have hless : url.length + (ascii "Moscow").length + options.length + 1 < 2 ^ 63 := by decide
  exact if_pos (decide_eq_true hless)

theorem getSerializedWeather_twoChunks :
    (∃ memory, getSerializedWeather generous twoChunks (ascii "Moscow") = .ok (some memory) ∧
      IsString memory [123, 125]) ↔
        (twoChunks (url ++ ascii "Moscow" ++ options)).chunks ≠ [] :=
  getSerializedWeather_iff getRequest_generous rfl (served_generous (by decide))

/-- A transfer without a body succeeds, and the string is a byte that was never written. -/
theorem noBody_not_string : (noBody []).completes = true ∧
    Served generous [] (noBody []).chunks ∧
    getSerializedWeather generous noBody (ascii "Moscow") = .ok (some (fresh 1)) ∧
    ¬IsString (fresh 1) (joined (noBody []).chunks) := by
  have hgranted : (emptyMemory generous).memory = some (fresh 1) := by decide
  refine ⟨rfl, served_generous (by decide), ?_, not_isString_empty _ _ hgranted⟩
  rw [getSerializedWeather, getRequest_generous, ← hgranted]
  rfl

end Homework.Weather

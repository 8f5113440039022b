import Homework.Weather.Weather
import Mathlib.Data.Option.Basic

/-!
# The answers that can be printed

Whether a computation that prints goes through does not depend on what has been printed before, so
it has a meaning without its output: its result, or none (`Means`). With it `print_weather` reads as
a path into the document. Nothing on this path is checked after a failure: the `NULL` that an
accessor gives is handed to the next one, and in the end to `printf`. So the program goes through
exactly when the document has the whole path (`printWeather_iff`).
-/

set_option autoImplicit false
set_option relaxedAutoImplicit false

namespace Homework.Weather

open Homework.Library.CString

/-! ### Computations without their output -/

section Meaning

variable {A B : Type}

/-- A computation has a result whatever has been printed before, or it has none. -/
structure Means (computation : Printing A) (meaning : Option A) : Prop where
  goes : ∀ result, meaning = some result → ∀ printed, ∃ after,
    computation.run printed = .ok (result, after)
  fails : meaning = none → ∀ printed, ∃ fault, computation.run printed = .error fault

variable {computation : Printing A} {next : A → Printing B}

theorem means_pure (result : A) : Means (pure result) (some result) where
  goes := fun _ hresult printed ↦ ⟨printed, by rw [Option.some.inj hresult]; rfl⟩
  fails := nofun

/-- A computation after one that has a result. -/
theorem Means.run_bind {first : A} (hmeans : Means computation (some first))
    (next : A → Printing B) (printed : List Call) :
    ∃ middle, (computation >>= next).run printed = (next first).run middle := by
  obtain ⟨middle, hmiddle⟩ := hmeans.goes first rfl printed
  refine ⟨middle, ?_⟩
  rw [StateT.run_bind, hmiddle]
  rfl

theorem Means.bind {meaning : Option A} {meanings : A → Option B}
    (hmeans : Means computation meaning) (hnext : ∀ result, Means (next result) (meanings result)) :
    Means (computation >>= next) (meaning.bind meanings) := by
  rcases meaning with _ | first
  · refine ⟨nofun, fun _ printed ↦ ?_⟩
    obtain ⟨fault, hfault⟩ := hmeans.fails rfl printed
    refine ⟨fault, ?_⟩
    rw [StateT.run_bind, hfault]
    rfl
  · rw [Option.bind_some]
    refine ⟨fun result hresult printed ↦ ?_, fun hnone printed ↦ ?_⟩
    · obtain ⟨middle, hmiddle⟩ := hmeans.run_bind next printed
      rw [hmiddle]
      exact (hnext first).goes result hresult middle
    · obtain ⟨middle, hmiddle⟩ := hmeans.run_bind next printed
      rw [hmiddle]
      exact (hnext first).fails hnone middle

theorem Means.goes_iff {meaning : Option A} (hmeans : Means computation meaning)
    (printed : List Call) :
    (∃ result, computation.run printed = .ok result) ↔ meaning.isSome = true := by
  rcases meaning with _ | result
  · obtain ⟨fault, hfault⟩ := hmeans.fails rfl printed
    rw [hfault]
    exact iff_of_false nofun Bool.false_ne_true
  · obtain ⟨after, hafter⟩ := hmeans.goes result rfl printed
    exact iff_of_true ⟨_, hafter⟩ rfl

theorem means_printf (format : String) : Means (printf format) (some ()) where
  goes := fun _ _ printed ↦ ⟨printed ++ [⟨format, none⟩], rfl⟩
  fails := nofun

theorem means_throw (fault : WeatherFault) : Means (throw fault : Printing A) none where
  goes := nofun
  fails := fun _ _ ↦ ⟨fault, rfl⟩

theorem means_printfString (format : String) (argument : Option Text) :
    Means (printfString format argument) (argument.map fun _ ↦ ()) := by
  rcases argument with _ | text
  · exact means_throw .nullString
  · exact ⟨fun _ _ printed ↦ ⟨printed ++ [⟨format, some text⟩], rfl⟩, nofun⟩

end Meaning

/-! ### Documents -/

namespace Json

/-- The value of a key in an object. -/
def field (source : Json) (key : Text) : Option Json :=
  match source with
  | object fields => fields.lookup key
  | _ => none

/-- The first item of an array. -/
def first : Json → Option Json
  | array (item :: _) => some item
  | _ => none

/-- An object has a key whose value is not `null`. -/
def HasText (source : Json) (key : Text) : Prop :=
  ∃ val, source.field key = some val ∧ val ≠ null

theorem ne_null_of_field {source val : Json} {key : Text} (hfield : source.field key = some val) :
    source ≠ null := by
  rintro rfl
  exact absurd hfield nofun

theorem HasText.ne_null {source : Json} {key : Text} (htext : source.HasText key) :
    source ≠ null := by
  obtain ⟨val, hfield, -⟩ := htext
  exact ne_null_of_field hfield

/-- A document with everything that is printed. -/
def IsWeather (document : Json) : Prop :=
  ∃ conditions condition descriptions desc,
    document.field current = some conditions ∧ conditions.first = some condition ∧
    condition.field description = some descriptions ∧ descriptions.first = some desc ∧
    desc.HasText value ∧ condition.HasText windDirection ∧ condition.HasText windSpeed ∧
    condition.HasText temperature

end Json

section Documented

variable {library : JsonC}

theorem JsonC.Documented.objectGetEx_eq (hdocumented : library.Documented) (source : Json)
    (key : Text) : library.objectGetEx source key = source.field key := by
  cases source with
  | object fields => exact hdocumented.object fields key
  | _ => exact hdocumented.notObject _ key nofun

/-- The first item of a document that is an array, or `NULL` if it has none. -/
theorem JsonC.Documented.arrayGetIdx_zero (hdocumented : library.Documented) {source : Json}
    (hsource : source.isArray = true) :
    library.arrayGetIdx source 0 = source.first.getD .null := by
  cases source with
  | array items =>
    rw [hdocumented.array]
    cases items with
    | nil => rfl
    | cons item items => rfl
  | _ => exact absurd hsource Bool.false_ne_true

/-- The text under a key, if there is one. -/
def textAt (library : JsonC) (source : Json) (key : Text) : Option Text :=
  (source.field key).bind library.getString

theorem textAt_isSome_iff (hdocumented : library.Documented) (source : Json) (key : Text) :
    (textAt library source key).isSome = true ↔ source.HasText key := by
  rw [textAt, Json.HasText]
  rcases source.field key with _ | val
  · exact iff_of_false Bool.false_ne_true nofun
  · have hnone := hdocumented.text val
    rw [Option.bind_some, Option.isSome_iff_ne_none, ne_eq, hnone]
    exact ⟨fun hne ↦ ⟨val, rfl, hne⟩, fun ⟨found, hfound, hne⟩ ↦ Option.some.inj hfound ▸ hne⟩

/-- What `json_object_array_get_idx` gives at the front of a document. -/
def headOf (source : Json) : Option Json :=
  if source.isArray then some (source.first.getD .null) else none

theorem headOf_eq_some_iff {source item : Json} (hitem : item ≠ .null) :
    headOf source = some item ↔ source.first = some item := by
  cases source with
  | array items =>
    cases items with
    | nil => exact iff_of_false (fun hhead ↦ hitem (Option.some.inj hhead).symm) nofun
    | cons first items => exact Iff.rfl
  | _ => exact iff_of_false nofun nofun

theorem means_getIdx (hdocumented : library.Documented) (source : Json) :
    Means (getIdx library source 0) (headOf source) := by
  rw [getIdx, headOf]
  split
  · next harray =>
    rw [hdocumented.arrayGetIdx_zero harray]
    exact means_pure _
  · exact means_throw .notAnArray

theorem means_getStringValue (hdocumented : library.Documented) (source : Json) (key : Text) :
    Means (getStringValue library source key) (some (textAt library source key)) := by
  rw [getStringValue, hdocumented.objectGetEx_eq, textAt]
  rcases source.field key with _ | val
  · exact (means_printfString _ (some key)).bind fun _ ↦ means_pure none
  · exact means_pure _

/-- The document from which `print_weather` prints. -/
def conditionOf (library : JsonC) (body : Text) : Option Json :=
  match (library.parse body).bind fun document ↦ document.field current with
  | none => some .null
  | some conditions => headOf conditions

theorem conditionOf_eq_some_iff {body : Text} {condition : Json} (hcondition : condition ≠ .null) :
    conditionOf library body = some condition ↔
      ∃ document conditions, library.parse body = some document ∧
        document.field current = some conditions ∧ conditions.first = some condition := by
  rw [conditionOf]
  rcases hconditions : (library.parse body).bind fun document ↦ document.field current with
    _ | conditions
  · refine iff_of_false (fun hnull ↦ hcondition (Option.some.inj hnull).symm) ?_
    rintro ⟨document, conditions, hparse, hfield, -⟩
    rw [hparse, Option.bind_some, hfield] at hconditions
    exact absurd hconditions nofun
  · obtain ⟨document, hparse, hfield⟩ := Option.bind_eq_some_iff.mp hconditions
    refine (headOf_eq_some_iff hcondition).trans ⟨fun hfirst ↦ ?_, ?_⟩
    · exact ⟨document, conditions, hparse, hfield, hfirst⟩
    · rintro ⟨other, others, hother, hothers, hfirst⟩
      obtain rfl := Option.some.inj (hparse.symm.trans hother)
      obtain rfl := Option.some.inj (hfield.symm.trans hothers)
      exact hfirst

theorem means_getCurrentCondition (hdocumented : library.Documented) (body : Text) :
    Means (getCurrentCondition library body) (conditionOf library body) := by
  rw [getCurrentCondition, conditionOf]
  rcases library.parse body with _ | document
  · exact (means_printf _).bind fun _ ↦ means_pure Json.null
  · simp only [hdocumented.objectGetEx_eq, Option.bind_some]
    rcases document.field current with _ | conditions
    · exact (means_printf _).bind fun _ ↦ means_pure Json.null
    · exact means_getIdx hdocumented conditions

/-- The description of a condition, if its document is not at fault. -/
def descriptionOf (library : JsonC) (condition : Json) : Option (Option Text) :=
  match condition.field description with
  | none => some none
  | some descriptions => (headOf descriptions).map fun desc ↦ textAt library desc value

theorem means_getDescription (hdocumented : library.Documented) (condition : Json) :
    Means (getDescription library condition) (descriptionOf library condition) := by
  rw [getDescription, descriptionOf, hdocumented.objectGetEx_eq]
  rcases condition.field description with _ | descriptions
  · exact (means_printf _).bind fun _ ↦ means_pure none
  · simp only [Option.map_eq_bind]
    exact (means_getIdx hdocumented descriptions).bind fun desc ↦
      means_getStringValue hdocumented desc value

/-- What is printed of a condition. -/
def printCondition (library : JsonC) (condition : Json) : Printing Unit := do
  printfString "%s\n" (← getDescription library condition)
  printfString "Направление ветра: %s\n" (← getWindDirection library condition)
  printfString "Скорость ветра: %s\n" (← getWindSpeed library condition)
  printfString "Температура: %s\n" (← getTemperature library condition)

theorem printWeather_some (location body : Text) :
    printWeather library location (some body) = (do
      let condition ← getCurrentCondition library body
      printfString "Погода в %s\n" location
      printCondition library condition) := rfl

/-- What follows a text is printed only if the text is there. -/
theorem isSome_print_bind (text : Option Text) (rest : Option Unit) :
    ((text.map fun _ ↦ ()).bind fun _ ↦ rest).isSome = true ↔
      text.isSome = true ∧ rest.isSome = true := by
  rcases text with _ | text
  · exact iff_of_false Bool.false_ne_true (fun hand ↦ Bool.false_ne_true hand.1)
  · exact (and_iff_right rfl).symm

/-- A condition is printed exactly if everything is in it. -/
theorem printCondition_iff (hdocumented : library.Documented) (condition : Json)
    (printed : List Call) :
    (∃ result, (printCondition library condition).run printed = .ok result) ↔
      (∃ text, descriptionOf library condition = some (some text)) ∧
        condition.HasText windDirection ∧ condition.HasText windSpeed ∧
        condition.HasText temperature := by
  have hprint (key : Text) (format : String) {rest : Printing Unit} {meaning : Option Unit}
      (hrest : Means rest meaning) :
      Means (do printfString format (← getStringValue library condition key); rest)
        (((textAt library condition key).map fun _ ↦ ()).bind fun _ ↦ meaning) :=
    (means_getStringValue hdocumented condition key).bind fun text ↦
      (means_printfString format text).bind fun _ ↦ hrest
  have hlast (key : Text) (format : String) :
      Means (do printfString format (← getStringValue library condition key))
        ((textAt library condition key).map fun _ ↦ ()) :=
    (means_getStringValue hdocumented condition key).bind fun text ↦ means_printfString format text
  have hmeans := (means_getDescription hdocumented condition).bind fun text ↦
    (means_printfString "%s\n" text).bind fun _ ↦
      hprint windDirection "Направление ветра: %s\n" (hprint windSpeed "Скорость ветра: %s\n"
        (hlast temperature "Температура: %s\n"))
  refine (hmeans.goes_iff printed).trans ?_
  rw [← textAt_isSome_iff hdocumented, ← textAt_isSome_iff hdocumented,
    ← textAt_isSome_iff hdocumented]
  rcases descriptionOf library condition with _ | text
  · exact iff_of_false Bool.false_ne_true (fun ⟨⟨text, htext⟩, _⟩ ↦ absurd htext nofun)
  · rw [Option.bind_some, isSome_print_bind, isSome_print_bind, isSome_print_bind,
      Option.isSome_map]
    refine and_congr_left' ?_
    rw [Option.isSome_iff_exists]
    exact exists_congr fun text ↦ Option.some_inj.symm

/-- The path from a condition to its description. -/
theorem exists_description_iff (hdocumented : library.Documented) (condition : Json) :
    (∃ text, descriptionOf library condition = some (some text)) ↔
      ∃ descriptions desc, condition.field description = some descriptions ∧
        descriptions.first = some desc ∧ desc.HasText value := by
  rw [descriptionOf]
  rcases condition.field description with _ | descriptions
  · exact iff_of_false (fun ⟨_, htext⟩ ↦ absurd htext nofun)
      (fun ⟨_, _, hfield, _⟩ ↦ absurd hfield nofun)
  · constructor
    · rintro ⟨text, htext⟩
      obtain ⟨desc, hhead, htext⟩ := Option.map_eq_some_iff.mp htext
      have hdesc : desc.HasText value := by
        rw [← textAt_isSome_iff hdocumented, htext]
        rfl
      exact ⟨descriptions, desc, rfl, (headOf_eq_some_iff hdesc.ne_null).mp hhead, hdesc⟩
    · rintro ⟨others, desc, hothers, hfirst, hdesc⟩
      obtain rfl := Option.some.inj hothers
      obtain ⟨text, htext⟩ :=
        Option.isSome_iff_exists.mp ((textAt_isSome_iff hdocumented desc value).mpr hdesc)
      refine ⟨text, ?_⟩
      have hhead := (headOf_eq_some_iff hdesc.ne_null).mpr hfirst
      simp only [hhead, Option.map_some, htext]

/-- The path to a condition, and what is there. -/
theorem exists_isWeather_iff (body : Text) :
    (∃ document, library.parse body = some document ∧ document.IsWeather) ↔
      ∃ condition, conditionOf library body = some condition ∧
        (∃ descriptions desc, condition.field description = some descriptions ∧
          descriptions.first = some desc ∧ desc.HasText value) ∧
        condition.HasText windDirection ∧ condition.HasText windSpeed ∧
        condition.HasText temperature := by
  constructor
  · rintro ⟨document, hparse, conditions, condition, descriptions, desc, hfield, hfirst,
      hdescriptions, hdesc, htext, hdirection, hspeed, htemperature⟩
    refine ⟨condition, ?_, ⟨descriptions, desc, hdescriptions, hdesc, htext⟩, hdirection, hspeed,
      htemperature⟩
    exact (conditionOf_eq_some_iff hdirection.ne_null).mpr
      ⟨document, conditions, hparse, hfield, hfirst⟩
  · rintro ⟨condition, hcondition, ⟨descriptions, desc, hdescriptions, hdesc, htext⟩, hdirection,
      hspeed, htemperature⟩
    obtain ⟨document, conditions, hparse, hfield, hfirst⟩ :=
      (conditionOf_eq_some_iff hdirection.ne_null).mp hcondition
    exact ⟨document, hparse, conditions, condition, descriptions, desc, hfield, hfirst,
      hdescriptions, hdesc, htext, hdirection, hspeed, htemperature⟩

/-- An answer is printed exactly if it is a document with everything that is printed. -/
theorem printBody_iff (hdocumented : library.Documented) (location body : Text)
    (printed : List Call) :
    (∃ result, (printWeather library location (some body)).run printed = .ok result) ↔
      ∃ document, library.parse body = some document ∧ document.IsWeather := by
  rw [printWeather_some, exists_isWeather_iff]
  have hmeans := means_getCurrentCondition hdocumented body
  rcases hcondition : conditionOf library body with _ | condition
  · obtain ⟨fault, hfault⟩ := hmeans.fails hcondition printed
    rw [StateT.run_bind, hfault]
    exact iff_of_false nofun (fun ⟨_, hnone, _⟩ ↦ absurd hnone nofun)
  · rw [hcondition] at hmeans
    obtain ⟨middle, hmiddle⟩ := hmeans.run_bind (fun condition ↦ do
      printfString "Погода в %s\n" location
      printCondition library condition) printed
    obtain ⟨after, hafter⟩ := (means_printfString "Погода в %s\n" (some location)).run_bind
      (fun _ ↦ printCondition library condition) middle
    rw [hmiddle, hafter, printCondition_iff hdocumented, exists_description_iff hdocumented]
    constructor
    · exact fun hprints ↦ ⟨condition, rfl, hprints⟩
    · rintro ⟨other, hother, hprints⟩
      exact Option.some.inj hother ▸ hprints

/-- The program goes through exactly if there was no answer, or the answer is a document with
everything that is printed. -/
theorem printWeather_iff (hdocumented : library.Documented) (location : Text)
    (serializedWeather : Option Text) (printed : List Call) :
    (∃ result, (printWeather library location serializedWeather).run printed = .ok result) ↔
      ∀ body, serializedWeather = some body →
        ∃ document, library.parse body = some document ∧ document.IsWeather := by
  rcases serializedWeather with _ | body
  · exact iff_of_true ⟨_, rfl⟩ nofun
  · refine (printBody_iff hdocumented location body printed).trans ⟨?_, fun hall ↦ hall body rfl⟩
    exact fun hweather other hother ↦ Option.some.inj hother ▸ hweather

end Documented

/-! ### An answer of the service, and an error page -/

/-- The answer of the service, as far as it is read. -/
def sampleBody : Text :=
  ascii ("\x7b\"current_condition\":[\x7b\"lang_ru\":[\x7b\"value\":\"Sunny\"\x7d]," ++
    "\"winddir16Point\":\"N\",\"windspeedKmph\":\"5\",\"temp_C\":\"20\"\x7d]\x7d")

def sampleDocument : Json :=
  .object [(current, .array [.object
    [(description, .array [.object [(value, .string (ascii "Sunny"))]]),
      (windDirection, .string (ascii "N")), (windSpeed, .string (ascii "5")),
      (temperature, .string (ascii "20"))]])]

/-- A library that knows one document. -/
def sampleLibrary : JsonC where
  parse := fun body ↦ if body = sampleBody then some sampleDocument else none
  objectGetEx := Json.field
  arrayGetIdx := fun source index ↦
    match source with
    | .array items => items[index]?.getD .null
    | _ => .null
  getString := fun source ↦
    match source with
    | .null => none
    | .string text => some text
    | .number text => some text
    | .boolean true => some (ascii "true")
    | .boolean false => some (ascii "false")
    | _ => some []

theorem sampleLibrary_parse (body : Text) :
    sampleLibrary.parse body = if body = sampleBody then some sampleDocument else none := rfl

theorem sampleLibrary_documented : sampleLibrary.Documented where
  object := fun _ _ ↦ rfl
  notObject := fun source _ hsource ↦ by
    cases source with
    | object fields => exact absurd rfl (hsource fields)
    | _ => rfl
  array := fun _ _ ↦ rfl
  text := fun source ↦ by
    cases source with
    | null => exact iff_of_true rfl rfl
    | boolean value =>
      cases value with
      | true => exact iff_of_false nofun nofun
      | false => exact iff_of_false nofun nofun
    | _ => exact iff_of_false nofun nofun

/-- The answer of the service is printed. -/
theorem printWeather_sample :
    ∃ result, (printWeather sampleLibrary (ascii "Moscow") (some sampleBody)).run [] =
      .ok result := by
  refine (printWeather_iff sampleLibrary_documented (ascii "Moscow") (some sampleBody) []).mpr ?_
  intro body hbody
  obtain rfl := Option.some.inj hbody
  exact ⟨sampleDocument, (sampleLibrary_parse _).trans (if_pos rfl), _, _, _, _, rfl, rfl, rfl, rfl,
    ⟨_, rfl, nofun⟩, ⟨_, rfl, nofun⟩, ⟨_, rfl, nofun⟩, ⟨_, rfl, nofun⟩⟩

/-- An answer that is no JSON is not. -/
theorem errorPage_not_printed :
    ¬∀ (library : JsonC) (location body : Text), library.Documented →
      ∃ result, (printWeather library location (some body)).run [] = .ok result := by
  intro hall
  have hprints := hall sampleLibrary (ascii "Moscow") (ascii "<html>") sampleLibrary_documented
  obtain ⟨document, hparse, -⟩ := (printBody_iff sampleLibrary_documented _ _ []).mp hprints
  rw [sampleLibrary_parse, if_neg (by decide)] at hparse
  exact absurd hparse nofun

end Homework.Weather

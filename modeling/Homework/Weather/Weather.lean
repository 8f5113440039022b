import Homework.Library.CString

/-!
# The weather

The program asks a server for a JSON document and prints parts of it. The library that reads the
document, json-c, is not part of the program: it is given by the functions that the program calls,
and `Documented` is what is assumed of them. A pointer to an object is a document, with `NULL` for
the document `null`.

To index a document that is not an array is a fault, and so is to print `NULL` with `%s`. The output
is the list of the calls of `printf` so far.
-/

set_option autoImplicit false
set_option relaxedAutoImplicit false

namespace Homework.Weather

open Homework.Library.CString

abbrev Text := List UInt8

inductive Json where
  | null
  | boolean (value : Bool)
  | number (text : Text)
  | string (text : Text)
  | array (items : List Json)
  | object (fields : List (Text × Json))

def Json.isArray : Json → Bool
  | array _ => true
  | _ => false

/-! ### The library -/

/-- The functions of json-c: `parse` is `none` where `json_tokener_parse_verbose` reports an error,
`objectGetEx` where `json_object_object_get_ex` returns false, and `getString` where
`json_object_get_string` returns `NULL`. -/
structure JsonC where
  parse : Text → Option Json
  objectGetEx : Json → Text → Option Json
  arrayGetIdx : Json → ℕ → Json
  getString : Json → Option Text

structure JsonC.Documented (library : JsonC) : Prop where
  /-- The value of a key is found in an object that has it. -/
  object : ∀ fields key, library.objectGetEx (.object fields) key = fields.lookup key
  /-- There is none in `NULL` and in what is no object. -/
  notObject : ∀ source key, (∀ fields, source ≠ .object fields) →
    library.objectGetEx source key = none
  /-- Behind the end of an array there is `NULL`. -/
  array : ∀ items index, library.arrayGetIdx (.array items) index = items[index]?.getD .null
  /-- There is no text for `NULL`, and one for every other document. -/
  text : ∀ source, library.getString source = none ↔ source = .null

/-! ### Output -/

/-- A call of `printf`, with the argument of its `%s`. -/
structure Call where
  format : String
  argument : Option Text

inductive WeatherFault where
  | notAnArray
  | nullString
deriving DecidableEq, Repr

abbrev Printing := StateT (List Call) (Except WeatherFault)

def printf (format : String) : Printing Unit := modify (· ++ [⟨format, none⟩])

/-- `printf` with a `%s`. -/
def printfString (format : String) (argument : Option Text) : Printing Unit :=
  match argument with
  | none => throw .nullString
  | some text => modify (· ++ [⟨format, some text⟩])

/-! ### The accessors -/

def current : Text := ascii "current_condition"
def description : Text := ascii "lang_ru"
def value : Text := ascii "value"
def windDirection : Text := ascii "winddir16Point"
def windSpeed : Text := ascii "windspeedKmph"
def temperature : Text := ascii "temp_C"

section Accessors

variable (library : JsonC)

/-- `json_object_array_get_idx`. -/
def getIdx (source : Json) (index : ℕ) : Printing Json :=
  if source.isArray then return library.arrayGetIdx source index else throw .notAnArray

def getStringValue (source : Json) (key : Text) : Printing (Option Text) :=
  match library.objectGetEx source key with
  | none => do
    printfString "Failed to get %s\n" key
    return none
  | some val => return library.getString val

def getCurrentCondition (serializedWeather : Text) : Printing Json :=
  match library.parse serializedWeather with
  | none => do
    printf "Failed to parse responce\n"
    return .null
  | some object =>
    match library.objectGetEx object current with
    | none => do
      printf "Failed to get current condition\n"
      return .null
    | some conditions => getIdx library conditions 0

def getDescription (condition : Json) : Printing (Option Text) :=
  match library.objectGetEx condition description with
  | none => do
    printf "Failed to get description\n"
    return none
  | some desc => do getStringValue library (← getIdx library desc 0) value

def getWindDirection (condition : Json) : Printing (Option Text) :=
  getStringValue library condition windDirection

def getWindSpeed (condition : Json) : Printing (Option Text) :=
  getStringValue library condition windSpeed

def getTemperature (condition : Json) : Printing (Option Text) :=
  getStringValue library condition temperature

/-- `print_weather`. `serializedWeather` is what `get_serialized_weather` returns, `none` for
`NULL`. -/
def printWeather (location : Text) (serializedWeather : Option Text) : Printing Unit :=
  match serializedWeather with
  | none => return
  | some body => do
    let condition ← getCurrentCondition library body
    printfString "Погода в %s\n" location
    printfString "%s\n" (← getDescription library condition)
    printfString "Направление ветра: %s\n" (← getWindDirection library condition)
    printfString "Скорость ветра: %s\n" (← getWindSpeed library condition)
    printfString "Температура: %s\n" (← getTemperature library condition)

end Accessors

end Homework.Weather

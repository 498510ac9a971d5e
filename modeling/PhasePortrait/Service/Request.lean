import PhasePortrait.Service.JsonReader

/-!
# Request bodies

A body counts only if it is declared as JSON and can be read as such.
-/
namespace PhasePortrait.Request

/-- A media type without its parameters, in small letters. -/
def mediaType (contentType : String) : String :=
  Text.lower (Text.strip ((Text.pieces ';' contentType).headD ""))

def isJson (contentType : String) : Bool :=
  let t := mediaType contentType
  t == "application/json" || (t.startsWith "application/" && t.endsWith "+json")

/-- The value of a body; null if there is none. -/
def body (contentType text : String) : Json :=
  if isJson contentType then (Json.read? text).getD .null else .null

end PhasePortrait.Request

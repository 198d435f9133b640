import Engine.Text.RegExp

/-! The origins that the service's CORS middleware lets in. -/
namespace Engine.Cors

inductive OriginType : Type
  | text (s : String)
  | regExp (r : RegExp)

/-- The option `origin`, one origin or an array of them. -/
inductive OriginOption : Type
  | one (o : OriginType)
  | array (os : List OriginType)

/-- An origin of the configuration in the form it is compared in. None where the source of a
regular expression is not a valid one. -/
def sanitizeOrigin (data : String) : Option OriginType :=
  if startsWith data "/" && endsWith data "/" then
    (RegExp.new (sliceTo data 1 1)).map .regExp
  else if startsWith data "*." then
    (RegExp.new (replace data "*." ".*.")).map .regExp
  else if includesText data "thirdweb-preview.com" then
    (RegExp.new "^https?:\\/\\/.*\\.thirdweb-preview\\.com$").map .regExp
  else if includesText data "thirdweb-dev.com" then
    (RegExp.new "^https?:\\/\\/.*\\.thirdweb-dev\\.com$").map .regExp
  else if endsWith data "/" then
    some (.text (sliceTo data 0 1))
  else
    some (.text data)

/-- Whether an origin of the option is the text `*`. -/
def OriginType.isStar : OriginType → Bool
  | .text s => s = "*"
  | .regExp _ => false

/-- What `normalizeCorsOptions` leaves of the option. -/
def normalizeCorsOptions (os : List OriginType) : OriginOption :=
  if os.any OriginType.isStar then .one (.text "*") else .array os

/-- The option that `fastifyCors` makes of the configured origins. -/
def fastifyCors (originArray : List String) : Option OriginOption :=
  (originArray.mapM sanitizeOrigin).map normalizeCorsOptions

/-- `isRequestOriginAllowed` of a text or a regular expression. A request without an origin
falls through to `!!allowedOrigin`. -/
def allowedBy (reqOrigin : Option String) : OriginType → Bool
  | .text s => reqOrigin = some s
  | .regExp r =>
    match truthy reqOrigin with
    | some origin => r.test origin
    | none => true

def isRequestOriginAllowed (reqOrigin : Option String) : OriginOption → Bool
  | .one o => allowedBy reqOrigin o
  | .array os => os.any (allowedBy reqOrigin)

/-- The header `Access-Control-Allow-Origin`. None is `false`, for which none is written. -/
def getAccessControlAllowOriginHeader (reqOrigin : Option String) (originOption : OriginOption) :
    Option String :=
  match originOption with
  | .one (.text s) => if s = "*" then some "*" else some s
  | originOption => if isRequestOriginAllowed reqOrigin originOption then reqOrigin else none

end Engine.Cors

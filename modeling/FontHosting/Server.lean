import FontHosting.Http.Response
import FontHosting.Manifest.Script
import FontHosting.Session.Basic

/-!
# Serving fonts

While a site is developed its fonts are served from the store.  A server of its own
answers every path: one with the script of the manifest, every other with the font
of that public URL.  A site that has a server already puts the fonts in front of its
own pages.
-/

namespace FontHosting.Server

open Asset (StoredFont)
open Http (Request Response Site)

/-- The font that is served at a path.  If the fonts are meant to lie on another server, a
request only has the path, so its origin is put in front. -/
def findFont (project : Project) (session : Session) (path : String) : Option StoredFont :=
  match session.collection.store.get? path with
  | some font => some font
  | none => (Url.origin? project.setup.base.path).bind fun origin =>
      session.collection.store.get? (origin ++ path)

/-- The path of the script of the manifest. -/
def manifestPath : String := "/@fob-font/manifest.js"

/-- The response with a font, which is to be asked for every time. -/
def fontResponse (font : StoredFont) : Response :=
  ⟨200, Table.ofList [("content-type", font.contentType), ("cache-control", "no-cache")],
    font.content⟩

/-- The response with the script of the manifest. -/
def manifestResponse (project : Project) (session : Session) : Response :=
  (Response.ofText 200 "application/javascript"
    (session.manifest.toScript project.setup.base)).withHeader "cache-control" "no-cache"

/-- The response for a path without a font. -/
def missingResponse (path : String) : Response :=
  .ofText 404 "text/plain" ("Font not found: " ++ path)

/-- What the server of its own answers, before it opens the response to other origins. -/
def respond (project : Project) (session : Session) (request : Request) : Response :=
  if request.path = manifestPath then
    Http.readOnly request.method (manifestResponse project session)
  else
    match findFont project session request.path with
    | some font => fontResponse font
    | none => missingResponse request.path

/-! ## Other origins -/

/-- The headers of a request that a response to another origin depends on. -/
def varyingHeaders : String :=
  ", ".intercalate ["origin", "access-control-request-method", "access-control-request-headers"]

/-- A response that every origin may read. -/
def opened (response : Response) : Response :=
  (response.withHeader "access-control-allow-origin" "*").withHeader "vary" varyingHeaders

/-- The answer to the question whether another origin may send a request, which it may.  A
route with a page of its own still tells its methods. -/
def preflight (response : Response) : Response :=
  let allow := match response.headers.get? "allow" with
    | some methods => (Response.ofStatus 200).withHeader "allow" methods
    | none => Response.ofStatus 200
  ((opened allow).withHeader "access-control-allow-methods" "*").withHeader
    "access-control-allow-headers" "*"

/-- What the server of its own answers.  Every path from the root on is a route. -/
def answer (project : Project) (session : Session) (request : Request) : Response :=
  let response := respond project session request
  let response := if request.method = "OPTIONS" then preflight response else opened response
  if request.path.toList.head? = some '/' then response.complete request.method else response

/-- What a site answers that has the fonts in front of it. -/
def answerBefore (project : Project) (session : Session) (site : Site) (request : Request) :
    Response :=
  let response := match findFont project session request.path with
    | some font => fontResponse font
    | none => site.respond request
  if site.hasRoute request.path then response.complete request.method else response

end FontHosting.Server

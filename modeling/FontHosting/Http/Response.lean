import FontHosting.Http.Request
import FontHosting.Table
import FontHosting.Text.Utf8

/-!
# Responses

A response is a status, headers and a body.  The server completes the response of
a route: it tells the length of the body, and leaves the body out where the method
asks for the headers only.
-/

namespace FontHosting.Http

/-- The answer to a request. -/
structure Response where
  status : Nat
  headers : Table String
  body : List UInt8

namespace Response

/-- A response without headers and body. -/
def ofStatus (status : Nat) : Response := ⟨status, Table.empty, []⟩

/-- A response with a text. -/
def ofText (status : Nat) (contentType text : String) : Response :=
  ⟨status, Table.ofList [("content-type", contentType)], Text.Utf8.encode text.toList⟩

/-- A response with one more header. -/
def withHeader (response : Response) (name value : String) : Response :=
  { response with headers := response.headers.insert name value }

/-- Whether a status is that of a success. -/
def isSuccess (response : Response) : Bool :=
  200 ≤ response.status && response.status < 300

/-- Complete the response of a route.  A successful answer to CONNECT has no body and tells no
length. -/
def complete (method : String) (response : Response) : Response :=
  if method = "CONNECT" && response.isSuccess then { response with body := [] }
  else
    let told := response.withHeader "content-length" (toString response.body.length)
    if method = "HEAD" then { told with body := [] } else told

end Response

/-- The methods that ask for a page. -/
def readMethods : List String := ["GET", "HEAD"]

/-- The response of a route that only answers requests for its page. -/
def readOnly (method : String) (page : Response) : Response :=
  if readMethods.contains method then page
  else (Response.ofStatus 405).withHeader "allow" (",".intercalate readMethods)

/-- A site of plain texts, by path. -/
structure Site where
  pages : Table String

/-- Whether a site has a page at a path. -/
def Site.hasRoute (site : Site) (path : String) : Bool := site.pages.contains path

/-- What a site answers before the response is completed. -/
def Site.respond (site : Site) (request : Request) : Response :=
  match site.pages.get? request.path with
  | some text => readOnly request.method (.ofText 200 "text/plain; charset=utf-8" text)
  | none => .ofStatus 404

end FontHosting.Http

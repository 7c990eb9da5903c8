import LocalSoftware.Common.Defs
import Mathlib.Data.List.Basic

/-!
# HTTP messages

The part of Boost.Beast's messages that the program reads and writes: methods, status codes, the
header container with its case-insensitive names, and `prepare_payload`. Bodies are strings: every
message of the program is an `http::message<_, http::string_body>`.
-/

set_option autoImplicit false

namespace LocalSoftware.Http

/-- `http::verb`. -/
inductive Verb where
  | unknown | delete | get | head | post | put | connect | options | trace
  | copy | lock | mkcol | move | propfind | proppatch | search | unlock | bind | rebind | unbind
  | acl | report | mkactivity | checkout | merge | msearch | notify | subscribe | unsubscribe
  | patch | purge | mkcalendar | link | unlink
deriving DecidableEq, Repr

/-- `http::status`: the values that the program uses, and the others, which it may receive. -/
inductive Status where
  | switchingProtocols
  | ok
  | noContent
  | unauthorized
  | notFound
  | methodNotAllowed
  | other (code : Nat)
deriving DecidableEq, Repr

/-! The names of the fields that the program reads or writes, as in `http::field`. -/

namespace Field

/-- `field::connection`. -/
def connection : Str := "Connection".toList

/-- `field::content_length`. -/
def contentLength : Str := "Content-Length".toList

/-- `field::content_type`. -/
def contentType : Str := "Content-Type".toList

/-- `field::cookie`. -/
def cookie : Str := "Cookie".toList

/-- `field::sec_websocket_accept`. -/
def secWebsocketAccept : Str := "Sec-WebSocket-Accept".toList

/-- `field::sec_websocket_key`. -/
def secWebsocketKey : Str := "Sec-WebSocket-Key".toList

/-- `field::server`. -/
def server : Str := "Server".toList

/-- `field::set_cookie`. -/
def setCookie : Str := "Set-Cookie".toList

/-- `field::upgrade`. -/
def upgrade : Str := "Upgrade".toList

end Field

/-- `http::fields`: names and values, in the order of insertion. -/
abbrev Fields := List (Str × Str)

/-- Field names are compared without regard to case. -/
def iequals (a b : Str) : Bool := a.map Char.toLower == b.map Char.toLower

namespace Fields

/-- `find`: the value of the first field of the given name. -/
def find (fields : Fields) (name : Str) : Option Str :=
  (List.find? (fun f => iequals f.1 name) fields).map Prod.snd

/-- `at`: as `find`, but throws `out_of_range` when there is no such field. -/
def at' (fields : Fields) (name : Str) : Except Fault Str :=
  match fields.find name with
  | some value => .ok value
  | none => .error .outOfRange

/-- `set`: replaces every field of that name. -/
def set (fields : Fields) (name value : Str) : Fields :=
  List.filter (fun f => !iequals f.1 name) fields ++ [(name, value)]

theorem at'_eq_ok_iff {fields : Fields} {name value : Str} :
    fields.at' name = .ok value ↔ fields.find name = some value := by
  unfold at'
  cases fields.find name <;> simp

theorem at'_eq_error_iff {fields : Fields} {name : Str} {e : Fault} :
    fields.at' name = .error e ↔ fields.find name = none ∧ e = .outOfRange := by
  unfold at'
  cases fields.find name <;> simp [eq_comm]

theorem iequals_refl (a : Str) : iequals a a = true := by
  simp [iequals]

/-- A field just set is found, with the value it was given. -/
theorem find_set_self (fields : Fields) (name value : Str) :
    (fields.set name value).find name = some value := by
  have hnone : List.find? (fun f => iequals f.1 name)
      (List.filter (fun f => !iequals f.1 name) fields) = none := by
    simp [List.find?_eq_none]
  simp [find, set, List.find?_append, hnone, iequals_refl]

end Fields

/-- `http::request<http::string_body>`. -/
structure Request where
  method : Verb
  target : Str
  version : Nat := 11
  fields : Fields := []
  body : Str := []
deriving DecidableEq, Repr

/-- `http::response<http::string_body>`. -/
structure Response where
  status : Status
  version : Nat
  fields : Fields := []
  body : Str := []
deriving DecidableEq, Repr

/-- Statuses whose messages have no body. -/
def Status.bodiless : Status → Bool
  | .switchingProtocols => true
  | .noContent => true
  | .other code => code / 100 == 1 || code == 304
  | _ => false

/-- `to_string` of an unsigned number. -/
def toStr (n : Nat) : Str := Nat.toDigits 10 n

/-- `prepare_payload`: sets the content length, and refuses a body where the status allows none. -/
def Response.preparePayload (res : Response) : Except Fault Response :=
  if res.body ≠ [] ∧ res.status.bodiless then
    .error (.invalidArgument "invalid response body")
  else
    .ok { res with fields := res.fields.set Field.contentLength (toStr res.body.length) }

/-- A response whose status allows a body is always prepared. -/
theorem Response.preparePayload_ok {res : Response} (h : res.status.bodiless = false) :
    res.preparePayload =
      .ok { res with
        fields := res.fields.set Field.contentLength (toStr res.body.length) } := by
  simp [preparePayload, h]

end LocalSoftware.Http

import Slideshow.Decimal.Reader
import Slideshow.Queue.Error
import Slideshow.Text.Blank
import Slideshow.Url.Basic

/-! # Addresses of queue servers

A server is reached over the network, perhaps with encryption, or through a socket in the file
system. The address may say which numbered database is used, who asks, and by which protocol. -/

namespace Slideshow.QueueAddress

/-- How a server is reached. -/
inductive Transport where
  | plain
  | encrypted
  | socket
deriving Repr, DecidableEq

/-- The schemes of addresses. -/
def transports : List (String × Transport) :=
  [("redis", .plain), ("valkey", .plain), ("rediss", .encrypted), ("valkeys", .encrypted),
   ("unix", .socket), ("redis+unix", .socket), ("valkey+unix", .socket)]

/-- The text of a parameter, where a plus sign stands for a blank. -/
def parameterText (cs : List Char) : String :=
  let spaced := String.ofList (cs.map fun c => if c = '+' then ' ' else c)
  (Url.percentDecode? spaced).getD spaced

/-- The parameters in the query of an address; of equal names the last one counts. -/
def parameters (url : Url) : List (String × String) :=
  let pairs := (Url.splitAt '&' (url.query.getD [])).filter fun pair => !pair.isEmpty
  (pairs.map fun pair =>
    match Text.cut? '=' pair with
    | some (name, value) => (parameterText name, parameterText value)
    | none => (parameterText pair, "")).reverse

/-- Whether a text is the number of a database. -/
def isDatabase (text : String) : Bool :=
  ((Decimal.int? text).filter fun n => Int64.minValue.toInt ≤ n && n ≤ Int64.maxValue.toInt).isSome

/-- The path without slashes around it. -/
def pathWord (url : Url) : String :=
  let inner := url.pathText.dropWhile (· = '/')
  String.ofList (inner.reverse.dropWhile (· = '/')).reverse

/-- Why an address of the network cannot be used. -/
def networkFault? (transport : Transport) (url : Url) : Option String :=
  if url.host.isEmpty then some "Missing hostname"
  else if transport = .encrypted && (url.fragment.map String.ofList).any (· ≠ "insecure") then
    some "only #insecure is supported as URL fragment"
  else if pathWord url ≠ "" && !isDatabase (pathWord url) then some "Invalid database number"
  else if (Url.percentDecode? (String.ofList url.username)).isNone then
    some "Username is not valid UTF-8 string"
  else if (Url.percentDecode? (String.ofList url.password)).isNone then
    some "Password is not valid UTF-8 string"
  else none

/-- Why an address of a socket cannot be used. -/
def socketFault? (url : Url) : Option String :=
  let host := String.ofList url.host
  if url.pathText.head? ≠ some '/' || (host ≠ "" && host ≠ "localhost") then some "Missing path"
  else if ((parameters url).lookup "db").any (!isDatabase ·) then some "Invalid database number"
  else none

/-- The protocols that can be asked for. -/
def protocols : List String := ["2", "resp2", "3", "resp3"]

/-- Why a protocol cannot be used. -/
def protocolFault? (url : Url) : Option String :=
  if ((parameters url).lookup "protocol").any (!protocols.contains ·) then
    some "Invalid protocol version"
  else none

/-- Why an address cannot be used. -/
def fault? (url : Url) : Option String :=
  match transports.lookup url.scheme with
  | none => some "URL provided is not a redis URL"
  | some .socket => socketFault? url <|> protocolFault? url
  | some transport => networkFault? transport url <|> protocolFault? url

/-- Refuses what is not the address of a queue server. -/
def check (text : String) : Except QueueError Unit :=
  match Url.parse text with
  | .error fault => .error (.connectionFailed fault.message)
  | .ok url =>
    match fault? url with
    | some reason => .error (.connectionFailed reason)
    | none => .ok ()

end Slideshow.QueueAddress

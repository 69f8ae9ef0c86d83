/-
# Responses

The response half of `Http.re`: the records `reqT` and `resT`, the head of a
response, and `write`, `setHeader`, `on` and `endConnection`.  A call into libuv
is an output.  The clock is read at the first `write` only, so its reading is a
parameter of a run.
-/
import UvHttp.Ocaml

/-! ## Records -/

/-- `UvBind.clientT`: the handle of an accepted connection. -/
abbrev ClientT := ℕ

/-- `reqT`. -/
structure ReqT where
  url : OString
  headers : StringMap OString

/-- A callback stored in a response: the one that does nothing, which a fresh
response has, or a closure of the handler.  Closures are values of a type `κ`,
code and environment together. -/
inductive Callback (κ : Type) where
  | noop
  | closure (k : κ)
  deriving DecidableEq

/-- `resT`. -/
@[ext]
structure ResT (κ : Type) where
  client : ClientT
  statusCode : ℤ
  contentType : OString
  headers : StringMap OString
  wroteHeaders : Bool
  onData : Callback κ
  onEnd : Callback κ

/-- A call of a libuv function on the client handle of a response. -/
inductive UvCall where
  | uvWrite (s : OString)
  | uvShutdown
  deriving DecidableEq

/-- The broken-down time of `Unix.gmtime`, with the ranges it documents. -/
structure Tm where
  tm_sec : ℕ
  tm_min : ℕ
  tm_hour : ℕ
  tm_mday : ℕ
  tm_mon : Fin 12
  tm_year : ℤ
  tm_wday : Fin 7

/-- `Unix.gmtime 0.`, the first reading of the clock. -/
def epoch : Tm := ⟨0, 0, 0, 1, 0, 70, 4⟩

/-! ## The head -/

/-- `getStatusCodeName`. -/
def getStatusCodeName (n : ℤ) : OString :=
  if n = 200 then lit "OK" else lit "Unknown"

def weekdays : Fin 7 → OString :=
  ![lit "Sun", lit "Mon", lit "Tue", lit "Wed", lit "Thu", lit "Fri", lit "Sat"]

def months : Fin 12 → OString :=
  ![lit "Jan", lit "Feb", lit "Mar", lit "Apr", lit "May", lit "Jun",
    lit "Jul", lit "Aug", lit "Sep", lit "Oct", lit "Nov", lit "Dec"]

/-- `dateToStr`: the format is `"%s, %d %s %d %02d:%02d:%02d GMT"`. -/
def dateToStr (t : Tm) : OString :=
  weekdays t.tm_wday ++ lit ", " ++ stringOfInt t.tm_mday ++ lit " " ++ months t.tm_mon
    ++ lit " " ++ stringOfInt (t.tm_year + 1900) ++ lit " " ++ twoDigits t.tm_hour ++ lit ":"
    ++ twoDigits t.tm_min ++ lit ":" ++ twoDigits t.tm_sec ++ lit " GMT"

example : dateToStr ⟨12, 0, 8, 22, 7, 118, 3⟩ = lit "Wed, 22 Aug 2018 08:00:12 GMT" := by decide

variable {κ : Type}

/-- The header lines: the fold goes through the keys in ascending order and puts
each line in front of the ones before it. -/
def headerLines (headers : StringMap OString) : OString :=
  headers.foldl (fun a k v => k ++ lit ": " ++ v ++ [lf] ++ a) [lf]

/-- `http ++ contentType ++ date ++ headers` of `write`. -/
def head (now : Tm) (res : ResT κ) : OString :=
  (lit "HTTP/1.1 " ++ stringOfInt res.statusCode ++ lit " " ++ getStatusCodeName res.statusCode
      ++ [lf])
    ++ (lit "Content-type: " ++ res.contentType ++ [lf])
    ++ (lit "Date: " ++ dateToStr now ++ [lf])
    ++ headerLines res.headers

/-- The key under which `write` looks for the framing. -/
def transferEncoding : OString := lit "Transfer-Encoding"

/-- The value that makes `write` frame its message. -/
def chunked : OString := lit "chunked"

/-- `Printf.sprintf "%X\r\n%s\r\n" (String.length msg) msg`. -/
def chunk (msg : OString) : OString := upperHex msg.length ++ crlf ++ msg ++ crlf

/-- The switch of `write` on the header map takes its first branch. -/
def isChunked (res : ResT κ) : Bool :=
  match res.headers[transferEncoding]? with
  | some v => v = chunked
  -- `Not_found` goes the way of any other value
  | none => false

/-- What `write` makes of its message. -/
def chunkedMsg (res : ResT κ) (headerStr msg : OString) : OString :=
  if isChunked res then headerStr ++ chunk msg else headerStr ++ msg

/-! ## Operations -/

/-- `write`. -/
def write (now : Tm) (res : ResT κ) (msg : OString) : ResT κ × List UvCall :=
  if !res.wroteHeaders then
    -- the mark is set before the head is made
    let res' := { res with wroteHeaders := true }
    (res', [.uvWrite (chunkedMsg res' (head now res') msg)])
  else
    (res, [.uvWrite (chunkedMsg res [] msg)])

/-- `setHeader`. -/
def setHeader (res : ResT κ) (s v : OString) : ResT κ :=
  { res with headers := res.headers.insert s v }

/-- `responseListenT`. -/
inductive ResponseListenT where
  | Data
  | End
  deriving DecidableEq

/-- `on`. -/
def on (res : ResT κ) (t : ResponseListenT) (cb : Callback κ) : ResT κ :=
  match t with
  | .Data => { res with onData := cb }
  | .End => { res with onEnd := cb }

/-- `endConnection`. -/
def endConnection (now : Tm) (res : ResT κ) : ResT κ × List UvCall :=
  let (res', calls) := write now res []
  (res', calls ++ [.uvShutdown])

/-- What a handler can do to a response: the functions of `Http` and assignments
to the mutable fields (those of `onData` and `onEnd` are what `on` does). -/
inductive Op (κ : Type) where
  | write (msg : OString)
  | endConnection
  | setHeader (s v : OString)
  | on (t : ResponseListenT) (cb : Callback κ)
  | statusCode (n : ℤ)
  | contentType (s : OString)
  | headers (m : StringMap OString)
  | wroteHeaders (b : Bool)

/-- One operation: the response after it and the calls it makes. -/
def applyOp (now : Tm) (res : ResT κ) : Op κ → ResT κ × List UvCall
  | .write msg => write now res msg
  | .endConnection => endConnection now res
  | .setHeader s v => (setHeader res s v, [])
  | .on t cb => (on res t cb, [])
  | .statusCode n => ({ res with statusCode := n }, [])
  | .contentType s => ({ res with contentType := s }, [])
  | .headers m => ({ res with headers := m }, [])
  | .wroteHeaders b => ({ res with wroteHeaders := b }, [])

/-- The response that `createServer` makes for an accepted client. -/
def initialRes (client : ClientT) : ResT κ where
  client := client
  statusCode := 200
  contentType := lit "text/plain"
  headers :=
    (((∅ : StringMap OString).insert transferEncoding chunked).insert
      (lit "Connection") (lit "keep-alive"))
  wroteHeaders := false
  onData := .noop
  onEnd := .noop

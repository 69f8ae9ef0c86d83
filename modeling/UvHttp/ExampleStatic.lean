/-
# The static server

The handler of `ExampleStatic.re`: the path it makes out of a URL, the file it reads
and the response it writes.  The paths that are opened are kept in a list, in the order
in which they are opened.
-/
import UvHttp.HttpWire
import UvHttp.Response

/-! ## Reading a file -/

/-- A channel opened for reading: the bytes that are left, and whether the system
reports an error at their end, as it does at once for a directory. -/
structure InChannel where
  rest : OString
  failsAtEnd : Bool

/-- The outcomes of `input_line`. -/
inductive InputLine where
  | line (s : OString) (chan : InChannel)
  | endOfFile
  | sysError

/-- `input_line`. -/
def inputLine (chan : InChannel) : InputLine :=
  match splitLine chan.rest with
  | some (s, rest) => .line s { chan with rest }
  | none =>
    if chan.failsAtEnd then .sysError
    else if chan.rest = [] then .endOfFile
    else .line chan.rest { chan with rest := [] }

/-- What `input_line` does: a line is followed by a line feed, or by the end of the file
and then it is not empty; the end is reported when no byte is left. -/
theorem inputLine_spec (chan : InChannel) :
    match inputLine chan with
    | .line s chan' => chan'.failsAtEnd = chan.failsAtEnd ∧ lf ∉ s ∧
        (chan.rest = s ++ lf :: chan'.rest ∨ s ≠ [] ∧ chan.rest = s ∧ chan'.rest = [])
    | .endOfFile => chan.failsAtEnd = false ∧ chan.rest = []
    | .sysError => chan.failsAtEnd = true := by
  unfold inputLine
  cases hsplit : splitLine chan.rest with
  | some p =>
    obtain ⟨hl, hrest⟩ := eq_append_of_splitLine hsplit
    exact ⟨rfl, hl, .inl hrest⟩
  | none =>
    have hlf := splitLine_eq_none_iff.mp hsplit
    split_ifs with hfails hnil
    · exact hfails
    · exact ⟨Bool.eq_false_iff.mpr hfails, hnil⟩
    · exact ⟨rfl, hlf, .inr ⟨hnil, rfl, rfl⟩⟩

/-- A line takes bytes from the channel. -/
theorem length_lt_of_inputLine {chan chan' : InChannel} {s : OString}
    (h : inputLine chan = .line s chan') : chan'.rest.length < chan.rest.length := by
  have hspec := inputLine_spec chan
  rw [h] at hspec
  rcases hspec.2.2 with hrest | ⟨hne, hrest, hnil⟩
  · rw [hrest, List.length_append, List.length_cons]
    omega
  · rw [hrest, hnil]
    exact List.length_pos_iff.mpr hne

/-- `readFile(chan, acc)`: the lines up to the end of the file, joined by line feeds.
There is no result where `Sys_error` is raised. -/
def readFileFrom (chan : InChannel) (acc : List OString) : Option OString :=
  match _ : inputLine chan with
  | .line s chan' => readFileFrom chan' (s :: acc)
  | .endOfFile => some ((lit "\n").intercalate acc.reverse)
  | .sysError => none
termination_by chan.rest.length
decreasing_by exact length_lt_of_inputLine ‹_›

/-- What `open_in` finds under a path; there is nothing where it raises `Sys_error`. -/
abbrev OpenIn := OString → Option InChannel

/-- `readFile(filename)`. -/
def readFile (openIn : OpenIn) (filename : OString) : Ocaml (List OString) (Option OString) := do
  modify (· ++ [filename])
  pure ((openIn filename).bind (readFileFrom · []))

/-! ## The response -/

/-- `String.rindex`; there is no result where it raises `Not_found`. -/
def rindex (s : OString) (c : UInt8) : Option ℕ :=
  (s.reverse.idxOf? c).map fun i => s.length - 1 - i

/-- `contentType`. -/
def contentType (path : OString) : OString :=
  match rindex path 46 with
  | none => lit "text/plain"
  | some i =>
    let suffix := path.drop (i + 1)
    if suffix = lit "html" then lit "text/html"
    else if suffix = lit "htm" then lit "text/html"
    else if suffix = lit "css" then lit "text/css"
    else if suffix = lit "mp4" then lit "video/mp4"
    else if suffix = lit "js" then lit "application/javascript"
    else lit "text/plain"

/-- `s.[i]`. -/
def stringGet (s : OString) (i : ℤ) : Except Exn UInt8 :=
  if i < 0 then .error (.invalidArgument "index out of bounds")
  else match s[i.toNat]? with
    | some c => .ok c
    | none => .error (.invalidArgument "index out of bounds")

/-- `/`. -/
def slash : UInt8 := 47

/-- The `url` of the handler: the one of the request, with `index.html` after a final
slash. -/
def servedUrl (url : OString) : Except Exn OString := do
  let last ← stringGet url (url.length - 1)
  pure (url ++ if last = slash then lit "index.html" else [])

/-- The `switch` on the file: what the handler does to the response. -/
def respond (url : OString) : Option OString → List (Op Empty)
  | some content => [.contentType (contentType url), .write content, .endConnection]
  | none => [.statusCode 404, .write (lit "Couldn't find that!"), .endConnection]

/-- The callback given to `createServer`: the operations on the response. -/
def staticServer (openIn : OpenIn) (req : ReqT) : Ocaml (List OString) (List (Op Empty)) := do
  match servedUrl req.url with
  | .error e => throw e
  | .ok url =>
    let content ← readFile openIn (lit "." ++ url)
    pure (respond url content)

/-- The paths that are opened for a request. -/
def openedFor (openIn : OpenIn) (req : ReqT) : List OString :=
  match staticServer openIn req [] with
  | .ok _ opened => opened
  | .error _ opened => opened

theorem stringGet_last {s : OString} (hs : s ≠ []) :
    stringGet s (s.length - 1) = .ok (s.getLast hs) := by
  have hpos := List.length_pos_iff.mpr hs
  have hindex : ((s.length : ℤ) - 1).toNat = s.length - 1 := by omega
  rw [stringGet, if_neg (by omega), hindex, List.getElem?_eq_getElem (by omega),
    List.getLast_eq_getElem]

theorem servedUrl_of_ne_nil {url : OString} (hurl : url ≠ []) :
    servedUrl url =
      .ok (url ++ if url.getLast hurl = slash then lit "index.html" else []) := by
  rw [servedUrl, stringGet_last hurl]
  rfl

/-- A request whose URL is accepted opens one path and is answered by what is found
there. -/
theorem staticServer_apply (openIn : OpenIn) {req : ReqT} {url : OString}
    (hserved : servedUrl req.url = .ok url) (opened : List OString) :
    staticServer openIn req opened =
      .ok (respond url ((openIn (lit "." ++ url)).bind (readFileFrom · [])))
        (opened ++ [lit "." ++ url]) := by
  unfold staticServer
  rw [hserved]
  rfl

/-- The path that is opened for a URL with at least a byte. -/
theorem openedFor_of_ne_nil (openIn : OpenIn) (req : ReqT) (hurl : req.url ≠ []) :
    openedFor openIn req =
      [lit "." ++ (req.url ++ if req.url.getLast hurl = slash then lit "index.html" else [])] := by
  rw [openedFor, staticServer_apply openIn (servedUrl_of_ne_nil hurl)]
  rfl

/-- An empty URL is refused before a file is opened. -/
theorem openedFor_nil (openIn : OpenIn) (headers : StringMap OString) :
    openedFor openIn ⟨[], headers⟩ = [] := rfl

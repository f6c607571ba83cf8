import EvmDb.Lib.Program
import EvmDb.Rpc.Request

/-!
A client of `src/rpc/server.c`: an HTTP request is read, its body passed on, the response sent.

The buffer is read at most twice. Whatever is searched in it is searched up to its first NUL.
-/

namespace EvmDb.Server

open EvmDb.Types EvmDb.Digits EvmDb.Hex EvmDb.Program EvmDb.Request

/-- `RPC_MAX_REQUEST_SIZE`. -/
def maxRequestSize : ℕ := 1024 * 1024

/-- What `handle_client` does: `read` to the buffer from an index on, at most some bytes; a NUL put
into it; `evmdb_rpc_handle_request`; and `write`. -/
inductive ClientCall
  | read (index size : ℕ)
  | terminate (index : ℕ)
  | handleRequest (request : Bytes)
  | write (data : Bytes)

/-- A read that fails or that comes to the end gives no bytes. -/
abbrev ClientCall.Answer : ClientCall → Type
  | .read _ _ => Bytes
  | .handleRequest _ => Option Bytes
  | .terminate _ | .write _ => Unit

abbrev ClientProg := Prog ClientCall ClientCall.Answer

def read (index size : ℕ) : ClientProg Bytes := issue (ClientCall.read index size)

def terminate (index : ℕ) : ClientProg Unit := issue (ClientCall.terminate index)

def handleRequest (request : Bytes) : ClientProg (Option Bytes) :=
  issue (ClientCall.handleRequest request)

def write (data : Bytes) : ClientProg Unit := issue (ClientCall.write data)

def line (text : String) : Bytes := ascii text ++ [13, 10]

def corsResponse : Bytes :=
  line "HTTP/1.1 204 No Content" ++ line "Access-Control-Allow-Origin: *" ++
    line "Access-Control-Allow-Methods: POST, GET, OPTIONS" ++
    line "Access-Control-Allow-Headers: Content-Type, Authorization" ++
    line "Access-Control-Max-Age: 86400" ++ line "Content-Length: 0" ++ line ""

/-- The head of a response of a length; its buffer has 512 bytes. -/
def responseHead (len : ℕ) : Bytes :=
  (line "HTTP/1.1 200 OK" ++ line "Content-Type: application/json" ++
    (ascii "Content-Length: " ++ decimal len ++ line "") ++
    line "Access-Control-Allow-Origin: *" ++
    line "Access-Control-Allow-Methods: POST, GET, OPTIONS" ++
    line "Access-Control-Allow-Headers: Content-Type, Authorization" ++
    line "Connection: close" ++ line "").take 511

/-- The end of a head. -/
def headEnd : Bytes := [13, 10, 13, 10]

/-- The index in the buffer where the body begins; a text without a head is all body. -/
def bodyIndex (buf : Bytes) : ℕ :=
  match strstr headEnd (cstr buf) with
  | some pos => (cstr buf).length - pos.length + 4
  | none => 0

/-- The length the buffer declares for the body, as a `size_t`. -/
def contentLength (buf : Bytes) : ℕ :=
  match (strstr (ascii "Content-Length:") (cstr buf)).or
      (strstr (ascii "content-length:") (cstr buf)) with
  | some pos => (atol (pos.drop 15) % 2 ^ 64).toNat
  | none => 0

/-- The second read, if less of the body has been received than is declared. -/
def readRest (buf : Bytes) : ClientProg Bytes :=
  let received := buf.length - bodyIndex buf
  if received < contentLength buf ∧ contentLength buf < maxRequestSize then do
    let extra ← read buf.length (contentLength buf - received)
    if extra = [] then return buf
    else do
      terminate (buf.length + extra.length)
      return buf ++ extra
  else return buf

/-- The body is passed on, and the response is sent. -/
def respond (body : Bytes) : ClientProg Unit := do
  let response ← handleRequest body
  match response with
  | none => return ()
  | some text => do
    write (responseHead text.length)
    write text

/-- `handle_client` once a first read has returned. -/
def client (first : Bytes) : ClientProg Unit :=
  if first = [] then return ()
  else do
    terminate first.length
    if (ascii "OPTIONS").isPrefixOf first then write corsResponse
    else do
      let buf ← readRest first
      respond (cstr (buf.drop (bodyIndex first)))

/-- `handle_client`. -/
def handleClient : ClientProg Unit := do
  let first ← read 0 (maxRequestSize - 1)
  client first

/-! ### The buffer -/

/-- What a call reads or writes lies in the buffer. -/
def ClientCall.Fits : ClientCall → Prop
  | .read index size => index + size ≤ maxRequestSize
  | .terminate index => index < maxRequestSize
  | .handleRequest _ | .write _ => True

/-- A read does not return more bytes than were asked for. -/
def ClientCall.Returns : (c : ClientCall) → c.Answer → Prop
  | .read _ size, data => data.length ≤ size
  | .terminate _, _ | .handleRequest _, _ | .write _, _ => True

/-- After a first read, the buffer is not left, whatever the second read returns. -/
def Bounded (first : Bytes) : Prop := IssuesWhile ClientCall.Fits ClientCall.Returns (client first)

/-- There is a second read after a first one. -/
def ReadsAgain (first : Bytes) : Prop :=
  ¬ (ascii "OPTIONS").isPrefixOf first ∧ first.length - bodyIndex first < contentLength first ∧
    contentLength first < maxRequestSize

instance (first : Bytes) : Decidable (ReadsAgain first) :=
  inferInstanceAs (Decidable (_ ∧ _ ∧ _))

lemma length_of_strstr {needle t u : Bytes} (h : strstr needle t = some u) :
    needle.length ≤ u.length ∧ u.length ≤ t.length := by
  induction t with
  | nil =>
    rw [strstr] at h
    split_ifs at h with hneedle
    cases h
    rw [hneedle]
    exact ⟨le_rfl, le_rfl⟩
  | cons c t ih =>
    rw [strstr] at h
    split_ifs at h with hprefix
    · cases h
      exact ⟨(List.isPrefixOf_iff_prefix.mp hprefix).length_le, le_rfl⟩
    · obtain ⟨hle, hlt⟩ := ih h
      exact ⟨hle, hlt.trans (Nat.le_succ _)⟩

lemma bodyIndex_le (buf : Bytes) : bodyIndex buf ≤ buf.length := by
  have hcstr : (cstr buf).length ≤ buf.length := (List.takeWhile_prefix _).length_le
  unfold bodyIndex
  split
  · rename_i pos hpos
    obtain ⟨hle, hlt⟩ := length_of_strstr hpos
    have hfour : headEnd.length = 4 := rfl
    omega
  · exact Nat.zero_le _

lemma issuesWhile_respond (body : Bytes) :
    IssuesWhile ClientCall.Fits ClientCall.Returns (respond body) := by
  refine ⟨trivial, fun response _ => ?_⟩
  cases response with
  | none => trivial
  | some text => exact ⟨trivial, fun _ _ => ⟨trivial, fun _ _ => trivial⟩⟩

/-- What follows the second read. -/
def afterRest (first extra : Bytes) : ClientProg Unit :=
  if extra = [] then respond (cstr (first.drop (bodyIndex first)))
  else .cmd (.terminate (first.length + extra.length)) fun _ =>
    respond (cstr ((first ++ extra).drop (bodyIndex first)))

lemma readRest_bind_of_readsAgain {first : Bytes} (h : ReadsAgain first) :
    (readRest first >>= fun buf => respond (cstr (buf.drop (bodyIndex first)))) =
      .cmd (.read first.length (contentLength first - (first.length - bodyIndex first)))
        (afterRest first) := by
  unfold readRest
  dsimp only
  rw [if_pos h.2]
  show Prog.cmd (ClientCall.read _ _)
    (fun extra => (ite (extra = []) _ _ : ClientProg Bytes) >>= _) = Prog.cmd _ _
  refine congrArg _ (funext fun extra => ?_)
  unfold afterRest
  split_ifs <;> rfl

lemma readRest_of_not {first : Bytes} (hoptions : ¬ (ascii "OPTIONS").isPrefixOf first)
    (h : ¬ ReadsAgain first) : readRest first = .ret first := by
  unfold readRest
  exact if_neg fun hmore => h ⟨hoptions, hmore⟩

/-- **The buffer is not left, unless there is a second read** and the head and the declared length
come to the size of the buffer. -/
theorem bounded_iff {first : Bytes} (hne : first ≠ []) (hlen : first.length < maxRequestSize) :
    Bounded first ↔
      (ReadsAgain first → bodyIndex first + contentLength first < maxRequestSize) := by
  have hindex := bodyIndex_le first
  unfold Bounded client
  rw [if_neg hne]
  by_cases hoptions : (ascii "OPTIONS").isPrefixOf first
  · rw [if_pos hoptions]
    exact iff_of_true ⟨hlen, fun _ _ => ⟨trivial, fun _ _ => trivial⟩⟩
      fun h => absurd hoptions h.1
  rw [if_neg hoptions]
  by_cases hagain : ReadsAgain first
  · rw [readRest_bind_of_readsAgain hagain]
    have hmore := hagain.2.1
    generalize hsize : contentLength first - (first.length - bodyIndex first) = size
    constructor
    · rintro ⟨-, hfits⟩ -
      obtain ⟨-, hreply⟩ := hfits () trivial
      have hend := hreply (List.replicate size 0) (List.length_replicate ..).le
      unfold afterRest at hend
      rw [if_neg (by rw [List.replicate_eq_nil_iff]; omega)] at hend
      have hterminated := hend.1
      rw [ClientCall.Fits, List.length_replicate] at hterminated
      omega
    · intro hfits
      have hlimit := hfits hagain
      refine ⟨hlen, fun _ _ => ⟨?_, fun extra hextra => ?_⟩⟩
      · show first.length + size ≤ maxRequestSize
        omega
      · have hreturned : extra.length ≤ size := hextra
        unfold afterRest
        split_ifs
        · exact issuesWhile_respond _
        · refine ⟨?_, fun _ _ => issuesWhile_respond _⟩
          show first.length + extra.length < maxRequestSize
          omega
  · rw [readRest_of_not hoptions hagain]
    exact iff_of_true ⟨hlen, fun _ _ => issuesWhile_respond _⟩ fun h => absurd h hagain

/-- A head that comes alone; its body of two bytes is read after it. -/
def shortHead : Bytes := line "POST / HTTP/1.1" ++ line "Content-Length: 2" ++ line ""

theorem bounded_shortHead : ReadsAgain shortHead ∧ Bounded shortHead :=
  ⟨by decide +kernel, (bounded_iff (by decide) (by decide)).mpr (by decide +kernel)⟩

/-- A head that declares the largest length there may be: the bytes that are asked for do not fit
behind it. -/
theorem not_bounded_head :
    ¬ Bounded (line "POST / HTTP/1.1" ++ line "Content-Length: 1048575" ++ line "") := by
  intro hbounded
  unfold Bounded client at hbounded
  rw [if_neg (by decide), if_neg (by decide), readRest_bind_of_readsAgain (by decide +kernel)]
    at hbounded
  obtain ⟨-, hfits⟩ := hbounded
  have hread : _ + _ ≤ maxRequestSize := (hfits () trivial).1
  revert hread
  decide +kernel

end EvmDb.Server

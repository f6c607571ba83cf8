import EvmDb.Rpc.Chain
import EvmDb.Rpc.Segments

/-!
The server as its clients see it: from the bytes of a connection to the bytes that are sent back.

A connection brings a POST in a segmentation that its body survives. What is sent back is a head
that declares the length of what follows, and then the answer of the machine on the chain.
-/

namespace EvmDb.Http

open EvmDb.Checked EvmDb.Types EvmDb.Digits EvmDb.Hex EvmDb.Program EvmDb.Redis EvmDb.Ledger
open EvmDb.RedisState EvmDb.Host EvmDb.Executor EvmDb.Request EvmDb.SendRaw EvmDb.Server
open EvmDb.Segments EvmDb.Chain

/-! ### Connections -/

/-- A connection and the clock while it is handled. Its chunks are those of a POST, and the body
survives. -/
structure Connection where
  post : Post
  chunks : List Bytes
  clock : ℕ → UInt64
  nonempty : ∀ c ∈ chunks, c ≠ []
  whole : chunks.flatten = post.head ++ post.body
  survives : Survives post chunks

/-- What the machine on the chain is given. -/
def Connection.input (c : Connection) : Input := ⟨c.clock, c.post.body⟩

/-- A connection while it is handled: the chunks to come, what has been sent, and the store. After
a read outside a buffer, nothing is said of what is sent. -/
structure Line where
  chunks : List Bytes
  sent : Read Bytes
  store : Store

variable (rpc : Rpc) (parser : TxParser) (clock : ℕ → UInt64)

/-- The calls of a client, on its connection and the store. -/
def line : Handler ClientCall ClientCall.Answer Line
  | l, .read _ size =>
    ((receive size l.chunks).1, { l with chunks := (receive size l.chunks).2 })
  | l, .terminate _ => ((), l)
  | l, .handleRequest request =>
    let (response, store) := run server (Dispatch.handleRequest rpc parser clock request) l.store
    match response with
    | .ok text => (some text, { l with store := store })
    | .reject => (none, { l with sent := .reject, store := store })
    | .outside i => (none, { l with sent := .outside i, store := store })
  | l, .write data => ((), { l with sent := l.sent >>= fun sent => .ok (sent ++ data) })

/-- The machine on a store, with what is sent: `handle_client`. -/
def connected : Machines.Machine Connection (Read Bytes) Store := fun c s =>
  let (_, l) := run (line rpc parser c.clock) handleClient ⟨c.chunks, .ok [], s⟩
  (l.sent, l.store)

/-! ### Responses -/

/-- An HTTP response with a text: a head up to the first empty line, with the length of the text,
and the text. -/
def Framed (sent text : Bytes) : Prop :=
  ∃ head, sent = head ++ text ∧ ascii "HTTP/1.1 200 OK" <+: head ∧ headEnd <:+ head ∧
    ¬ headEnd <:+: head.dropLast ∧ Declares head text.length

/-- The answer is sent in a response, if its length is a `size_t`. -/
def Answered (sent answer : Read Bytes) : Prop :=
  match answer with
  | .ok text => ∃ bytes, sent = .ok bytes ∧ (text.length < 2 ^ 64 → Framed bytes text)
  | .reject => sent = .reject
  | .outside i => sent = .outside i

/-- What is sent with a text. -/
def frame (text : Bytes) : Read Bytes := .ok (responseHead text.length ++ text)

/-- A text that is nowhere on either side of a character it does not have is nowhere. -/
lemma not_infix_append {α : Type} {l a b : List α} {c : α} (hc : c ∉ l) (ha : ¬ l <:+: a)
    (hb : ¬ l <:+: b) : ¬ l <:+: a ++ c :: b := by
  rintro ⟨s, t, hst⟩
  rcases List.append_eq_append_iff.mp hst with ⟨u, hu, -⟩ | ⟨u, hu, ht⟩
  · exact ha ⟨s, u, hu.symm⟩
  rcases u with _ | ⟨d, u⟩
  · rw [List.append_nil] at hu
    exact ha ⟨s, [], by rw [List.append_nil, hu]⟩
  rw [List.cons_append] at ht
  obtain ⟨rfl, hrest⟩ := List.cons.inj ht
  rcases List.append_eq_append_iff.mp hu with ⟨v, -, hv⟩ | ⟨v, -, hv⟩
  · exact hc (hv ▸ List.mem_append_right v List.mem_cons_self)
  · rcases v with _ | ⟨e, v⟩
    · rw [List.nil_append] at hv
      exact hc (hv ▸ List.mem_cons_self)
    · rw [List.cons_append] at hv
      refine hb ⟨v, t, ?_⟩
      rw [hrest, (List.cons.inj hv).2]

/-- The same with some characters between the two sides. -/
lemma not_infix_between {α : Type} {l a b cs : List α} (hcs : ∀ c ∈ cs, c ∉ l) (hne : cs ≠ [])
    (ha : ¬ l <:+: a) (hb : ¬ l <:+: b) : ¬ l <:+: a ++ (cs ++ b) := by
  induction cs generalizing a with
  | nil => exact absurd rfl hne
  | cons c cs ih =>
    obtain ⟨hc, hcs'⟩ := List.forall_mem_cons.mp hcs
    refine not_infix_append hc ha ?_
    cases cs with
    | nil => exact hb
    | cons d ds =>
      refine @ih [] hcs' (List.cons_ne_nil d ds) fun hin => ha ?_
      rw [List.eq_nil_of_infix_nil hin]
      exact List.nil_infix

/-- The head in front of the length. -/
def headFront : Bytes :=
  ascii "HTTP/1.1 200 OK" ++ Server.line "" ++ ascii "Content-Type: application/json" ++
    Server.line "" ++ ascii "Content-Length" ++ [58] ++ [32]

/-- The head behind the length. -/
def headBack : Bytes :=
  Server.line "" ++ (Server.line "Access-Control-Allow-Origin: *" ++
    Server.line "Access-Control-Allow-Methods: POST, GET, OPTIONS" ++
    Server.line "Access-Control-Allow-Headers: Content-Type, Authorization" ++
    Server.line "Connection: close" ++ Server.line "")

/-- No head is cut off. -/
lemma responseHead_eq {n : ℕ} (h : n < 2 ^ 64) :
    responseHead n = headFront ++ (decimal n ++ headBack) := by
  have hdec : (decimal n).length ≤ 20 := by
    unfold decimal
    rw [List.length_map]
    exact length_digits_le (by omega) (by omega) (lt_of_lt_of_le h (by norm_num))
  have hfront : headFront.length = 65 := by decide +kernel
  have hback : headBack.length = 164 := by decide +kernel
  have hline : Server.line "HTTP/1.1 200 OK" ++ Server.line "Content-Type: application/json" ++
      ascii "Content-Length: " = headFront := rfl
  unfold responseHead
  rw [List.take_of_length_le]
  · rw [← hline]
    unfold headBack
    simp only [List.append_assoc]
  · unfold headBack at hback
    rw [← hline] at hfront
    simp only [List.length_append] at hfront hback ⊢
    omega

/-- **A response is framed.** -/
lemma framed_response {text : Bytes} (h : text.length < 2 ^ 64) :
    Framed (responseHead text.length ++ text) text := by
  have hdigits := isDigit_decimal text.length
  have hne : decimal text.length ≠ [] := by simpa [decimal] using digits_ne_nil 10 text.length
  have hother : ∀ c ∈ headEnd, isDigit c = false := by decide
  have hback : headBack ≠ [] := by decide
  have hend : ¬ headEnd <:+: (headFront ++ (decimal text.length ++ headBack)).dropLast := by
    rw [List.dropLast_append_of_ne_nil (by simp [hne]), List.dropLast_append_of_ne_nil hback]
    refine not_infix_between (fun c hc hmem => ?_) hne (by decide +kernel)
      (by decide +kernel)
    have hdigit := hdigits c hc
    rw [hother c hmem] at hdigit
    cases hdigit
  refine ⟨responseHead text.length, rfl, ?_⟩
  rw [responseHead_eq h]
  refine ⟨?_, ?_, hend, ?_⟩
  · unfold headFront
    simp only [List.append_assoc]
    exact List.prefix_append _ _
  · have hlast : headEnd <:+ headBack := by decide +kernel
    exact hlast.trans ((List.suffix_append _ _).trans (List.suffix_append _ _))
  · refine ⟨ascii "HTTP/1.1 200 OK" ++ Server.line "" ++ ascii "Content-Type: application/json",
      ascii "Content-Length", [32], decimal text.length, headBack.drop 2, ?_, by decide, by decide,
      hne, hdigits, ?_⟩
    · have hsplit : headBack = Server.line "" ++ headBack.drop 2 := rfl
      rw [hsplit]
      simp only [headFront, List.append_assoc]
      rfl
    · exact value_map_decimal _

/-- What is sent with an answer. -/
lemma answered_frame (answer : Read Bytes) : Answered (answer >>= frame) answer := by
  cases answer with
  | ok text => exact ⟨_, rfl, framed_response⟩
  | reject => rfl
  | outside i => rfl

/-! ### One connection -/

variable {rpc parser clock}

/-- The response to a body, and what becomes of the store. -/
lemma run_respond (body : Bytes) (chunks : List Bytes) (s : Store) :
    (run (line rpc parser clock) (respond body) ⟨chunks, .ok [], s⟩).2 =
      ⟨chunks, (run server (Dispatch.handleRequest rpc parser clock body) s).1 >>= frame,
        (run server (Dispatch.handleRequest rpc parser clock body) s).2⟩ := by
  unfold respond
  rw [run_bind]
  unfold Server.handleRequest
  rw [run_issue]
  rcases hrun : run server (Dispatch.handleRequest rpc parser clock body) s with ⟨response, store⟩
  cases response with
  | ok text =>
    have hcall : line rpc parser clock ⟨chunks, .ok [], s⟩ (.handleRequest body) =
        (some text, ⟨chunks, .ok [], store⟩) := by
      unfold line
      dsimp only
      rw [hrun]
    rw [hcall]
    rfl
  | reject =>
    have hcall : line rpc parser clock ⟨chunks, .ok [], s⟩ (.handleRequest body) =
        (none, ⟨chunks, .reject, store⟩) := by
      unfold line
      dsimp only
      rw [hrun]
    rw [hcall]
    rfl
  | outside i =>
    have hcall : line rpc parser clock ⟨chunks, .ok [], s⟩ (.handleRequest body) =
        (none, ⟨chunks, .outside i, store⟩) := by
      unfold line
      dsimp only
      rw [hrun]
    rw [hcall]
    rfl

/-- A client goes on to respond to what two reads return, from the body on. -/
lemma run_handleClient {chunk : Bytes} (chunks : List Bytes) (hne : chunk ≠ [])
    (hlen : chunk.length < maxRequestSize) (hoptions : ¬ (ascii "OPTIONS").isPrefixOf chunk)
    (s : Store) :
    ∃ rest, run (line rpc parser clock) handleClient ⟨chunk :: chunks, .ok [], s⟩ =
      run (line rpc parser clock)
        (respond (cstr ((chunk ++ second chunk chunks).drop (bodyIndex chunk))))
        ⟨rest, .ok [], s⟩ := by
  have hread : receive (maxRequestSize - 1) (chunk :: chunks) = (chunk, chunks) :=
    if_pos (Nat.le_sub_one_of_lt hlen)
  have hfirst : run (line rpc parser clock) handleClient ⟨chunk :: chunks, .ok [], s⟩ =
      run (line rpc parser clock) (client chunk) ⟨chunks, .ok [], s⟩ := by
    show run (line rpc parser clock) (client (receive _ (chunk :: chunks)).1)
      (⟨(receive _ (chunk :: chunks)).2, .ok [], s⟩ : Line) = _
    rw [hread]
  rw [hfirst]
  unfold client second
  rw [if_neg hne, if_neg hoptions]
  by_cases hagain : ReadsAgain chunk
  · rw [readRest_bind_of_readsAgain hagain, if_pos hagain, ← receive_fst]
    refine ⟨(receive (contentLength chunk - (chunk.length - bodyIndex chunk)) chunks).2, ?_⟩
    show run (line rpc parser clock) (afterRest chunk (receive _ chunks).1)
      (⟨(receive _ chunks).2, .ok [], s⟩ : Line) = _
    unfold afterRest
    split_ifs with hend
    · rw [hend, List.append_nil]
    · rfl
  · rw [readRest_of_not hoptions hagain, if_neg hagain, List.append_nil]
    exact ⟨chunks, rfl⟩

/-- **A connection is answered as its body is.** -/
lemma connected_eq (c : Connection) (s : Store) :
    connected rpc parser c s =
      ((served rpc parser c.input s).1 >>= frame, (served rpc parser c.input s).2) := by
  have hwhole := (whole_iff c.nonempty c.whole).mpr c.survives
  have hsize := c.post.size
  have hflat := c.whole
  have hnonempty := c.nonempty
  have hsurvives := c.survives
  unfold connected
  rcases hchunks : c.chunks with _ | ⟨chunk, chunks⟩
  · rw [hchunks] at hsurvives
    exact absurd hsurvives id
  rw [hchunks] at hwhole hflat hnonempty
  rw [List.flatten_cons] at hflat
  have hne := hnonempty chunk List.mem_cons_self
  have hoptions := not_options hne hflat
  have hlen := congrArg List.length hflat
  rw [List.length_append, List.length_append] at hlen
  have hbody : cstr ((chunk ++ second chunk chunks).drop (bodyIndex chunk)) = c.post.body := by
    have hpassed := hwhole fun _ => none
    rw [passed_eq chunks _ hne (by omega) hoptions] at hpassed
    exact (List.cons.inj hpassed).1
  obtain ⟨rest, hrun⟩ := @run_handleClient rpc parser c.clock chunk chunks hne (by omega) hoptions s
  rw [hrun, hbody]
  have hrespond := @run_respond rpc parser c.clock c.post.body rest s
  exact congrArg (fun l : Line => (l.sent, l.store)) hrespond

/-- **The server answers its clients from the chain.** Over any run of connections, on any store,
each client is sent a response with the answer of the machine on the chain to the body of its
request, and the components afterwards are those of the machine. -/
theorem connections_answered (rpc : Rpc) (parser : TxParser) (hr : ∀ n, rpc.evm.realloc n = true)
    (connections : List Connection) (s : Store) :
    List.Forall₂ Answered (Machines.run (connected rpc parser) connections s).1
        ((Machines.run (chain rpc parser) (connections.map Connection.input)
          (chainOf rpc.evm.uninit s)).1.map Prod.fst) ∧
      chainOf rpc.evm.uninit (Machines.run (connected rpc parser) connections s).2 =
        (Machines.run (chain rpc parser) (connections.map Connection.input)
          (chainOf rpc.evm.uninit s)).2 := by
  have hrefines : Machines.Refines (connected rpc parser) (fun c => chain rpc parser c.input)
      (fun out => out.1 >>= frame) (chainOf rpc.evm.uninit) := by
    intro c s
    obtain ⟨hout, hstate⟩ := @refines_step rpc parser hr c.input s
    rw [connected_eq]
    exact ⟨congrArg (· >>= frame) hout, hstate⟩
  obtain ⟨houts, hend⟩ := hrefines.run connections s
  have hmap := @Machines.run_map _ _ _ (chain rpc parser) _ Connection.input connections
  rw [hmap] at houts hend
  refine ⟨?_, hend⟩
  rw [houts, List.forall₂_map_left_iff, List.forall₂_map_right_iff]
  exact List.forall₂_same.mpr fun out _ => answered_frame out.1

def sendBody : Bytes := ascii "\x7b\"method\":\"eth_sendRawTransaction\",\"params\":[\"0x00\"]\x7d"

/-- A request for the first slot of the account at the address zero. -/
def askBody : Bytes :=
  ascii "\x7b\"method\":\"eth_getStorageAt\",\"params\":[\"0x" ++ List.replicate 40 48 ++
    ascii "\",\"0x" ++ List.replicate 64 48 ++ ascii "\"]\x7d"

/-- A head with the length of a body in digits. -/
def headOf (digits : Bytes) : Bytes :=
  Server.line "POST / HTTP/1.1" ++ (ascii "Content-Length: " ++ digits ++ Server.line "") ++
    Server.line ""

def sendPost : Post where
  head := headOf (ascii "53")
  body := sendBody
  method := List.isPrefixOf_iff_prefix.mp (by decide)
  ends := List.isSuffixOf_iff_suffix.mp (by decide)
  first := by decide
  declares := ⟨ascii "POST / HTTP/1.1", ascii "Content-Length", [32], ascii "53", Server.line "",
    by decide, by decide, by decide, by decide, by decide, by decide⟩
  noNul := by decide
  size := by decide

def askPost : Post where
  head := headOf (ascii "154")
  body := askBody
  method := List.isPrefixOf_iff_prefix.mp (by decide)
  ends := List.isSuffixOf_iff_suffix.mp (by decide)
  first := by decide
  declares := ⟨ascii "POST / HTTP/1.1", ascii "Content-Length", [32], ascii "154", Server.line "",
    by decide +kernel, by decide, by decide, by decide, by decide, by decide +kernel⟩
  noNul := by decide +kernel
  size := by decide +kernel

/-- A transaction is sent, the body in a chunk of its own. -/
def sendConnection : Connection where
  post := sendPost
  chunks := [sendPost.head, sendPost.body]
  clock := fun _ => 0
  nonempty := by decide
  whole := by decide
  survives := by
    unfold Survives
    dsimp only
    rw [if_pos (by decide)]
    exact Or.inr ⟨rfl, by decide +kernel, by decide +kernel⟩

/-- It is asked for what the transaction has done, in one chunk. -/
def askConnection : Connection where
  post := askPost
  chunks := [askPost.head ++ askPost.body]
  clock := fun _ => 0
  nonempty := by decide
  whole := by decide +kernel
  survives := by
    unfold Survives
    dsimp only
    rw [if_pos (by decide +kernel)]
    exact Or.inl rfl

/-- The transaction is answered with its hash, and then the contract has counted from 6 to 7. -/
theorem connections_answered_sendAndAsk :
    List.Forall₂ Answered (Machines.run (connected countingRpc callParser)
        [sendConnection, askConnection] (counter (.zero 20) 6 fun _ => none)).1
      [.ok (Response.result (ascii "1") (quoted (hashToHex (.zero 32)))).text,
        .ok (Response.result (ascii "1") (quoted (bytes32ToHex (bytes32FromUint64 7)))).text] := by
  have hanswer := (connections_answered countingRpc callParser (fun _ => rfl)
    [sendConnection, askConnection] (counter (.zero 20) 6 fun _ => none)).1
  have hchain : (Machines.run (chain countingRpc callParser)
      ([sendConnection, askConnection].map Connection.input)
      (chainOf countingRpc.evm.uninit (counter (.zero 20) 6 fun _ => none))).1.map Prod.fst =
        [.ok (Response.result (ascii "1") (quoted (hashToHex (.zero 32)))).text,
          .ok (Response.result (ascii "1") (quoted (bytes32ToHex (bytes32FromUint64 7)))).text] := by
    decide +kernel
  rw [hchain] at hanswer
  exact hanswer

end EvmDb.Http

import EvmDb.Rpc.Server

/-!
Which segmentations of a request a client's body survives.

A client reads at most twice, and it looks for the head and for the declared length in what the
first read returns.
-/

namespace EvmDb.Segments

open EvmDb.Types EvmDb.Digits EvmDb.Hex EvmDb.Program EvmDb.Request EvmDb.Server

/-! ### Requests and connections -/

def lower (c : UInt8) : UInt8 := if 65 ≤ c ∧ c ≤ 90 then c + 32 else c

/-- A head has a field with the length of a body, written in any case. -/
def Declares (head : Bytes) (len : ℕ) : Prop :=
  ∃ before name blank digits after, head = before ++ line "" ++ name ++ [58] ++ blank ++ digits ++
      line "" ++ after ∧
    name.map lower = ascii "content-length" ∧ (∀ c ∈ blank, c = 32 ∨ c = 9) ∧ digits ≠ [] ∧
      (∀ c ∈ digits, isDigit c = true) ∧ value 10 (digits.map fun c => c.toNat - 48) = len

/-- An HTTP POST that is shorter than the buffer: a head up to the first empty line, with the length
of the body, and the body. -/
structure Post where
  head : Bytes
  body : Bytes
  method : ascii "POST " <+: head
  ends : headEnd <:+ head
  first : ¬ headEnd <:+: head.dropLast
  declares : Declares head body.length
  noNul : 0 ∉ head ++ body
  size : head.length + body.length < maxRequestSize

/-- A read takes the next chunk. If it asks for less than that, it leaves the rest of it. -/
def receive (size : ℕ) : List Bytes → Bytes × List Bytes
  | [] => ([], [])
  | chunk :: chunks =>
    if chunk.length ≤ size then (chunk, chunks) else (chunk.take size, chunk.drop size :: chunks)

/-- A connection, as the chunks that are to come, and a server, as its responses. -/
def socket (server : Bytes → Option Bytes) : Handler ClientCall ClientCall.Answer (List Bytes)
  | chunks, .read _ size => receive size chunks
  | chunks, .terminate _ => ((), chunks)
  | chunks, .handleRequest request => (server request, chunks)
  | chunks, .write _ => ((), chunks)

def passedBy : ClientCall → Option Bytes
  | .handleRequest request => some request
  | _ => none

/-- The strings that are passed on as requests. -/
def passed (server : Bytes → Option Bytes) (chunks : List Bytes) : List Bytes :=
  (trace (socket server) handleClient chunks).filterMap passedBy

/-- The body is passed on, and nothing else. -/
def Whole (p : Post) (chunks : List Bytes) : Prop := ∀ server, passed server chunks = [p.body]

/-- What a second read returns. -/
def second (first : Bytes) (chunks : List Bytes) : Bytes :=
  if ReadsAgain first then
    (chunks.headD []).take (contentLength first - (first.length - bodyIndex first))
  else []

/-- How many bytes a second read returns, when the first one has broken the head. -/
def secondSize (first : Bytes) (chunks : List Bytes) : ℕ :=
  if first.length < contentLength first ∧ contentLength first < maxRequestSize then
    min (contentLength first - first.length) (chunks.headD []).length
  else 0

/-- The first chunk has the whole head, and the rest of the body comes in at most one more chunk
that the declared length covers. Or the first chunk breaks the head, the body repeats the head as
far as it goes, and the two reads return as many bytes as it has. -/
def Survives (p : Post) : List Bytes → Prop
  | [] => False
  | chunk :: chunks =>
    if p.head.length ≤ chunk.length then
      chunks = [] ∨ chunks.length = 1 ∧ p.body.length ≤ contentLength chunk ∧
        contentLength chunk < maxRequestSize
    else p.body <+: p.head ++ p.body ∧ p.body.length = chunk.length + secondSize chunk chunks

/-! ### What is passed on -/

lemma passed_respond (server : Bytes → Option Bytes) (body : Bytes) (chunks : List Bytes) :
    (trace (socket server) (respond body) chunks).filterMap passedBy = [body] := by
  unfold respond
  show body :: _ = [body]
  simp only [socket]
  cases server body <;> rfl

lemma receive_fst (size : ℕ) (chunks : List Bytes) :
    (receive size chunks).1 = (chunks.headD []).take size := by
  cases chunks with
  | nil =>
    rw [List.headD_nil, List.take_nil]
    rfl
  | cons chunk chunks =>
    unfold receive
    dsimp only
    split_ifs with hle
    · exact (List.take_of_length_le hle).symm
    · rfl

/-- What is passed on is what two reads return, from the body on. -/
lemma passed_eq {chunk : Bytes} (chunks : List Bytes) (server : Bytes → Option Bytes)
    (hne : chunk ≠ []) (hlen : chunk.length < maxRequestSize)
    (hoptions : ¬ (ascii "OPTIONS").isPrefixOf chunk) :
    passed server (chunk :: chunks) =
      [cstr ((chunk ++ second chunk chunks).drop (bodyIndex chunk))] := by
  have hread : receive (maxRequestSize - 1) (chunk :: chunks) = (chunk, chunks) :=
    if_pos (Nat.le_sub_one_of_lt hlen)
  have hfirst : passed server (chunk :: chunks) =
      (trace (socket server) (client chunk) chunks).filterMap passedBy := by
    show (trace (socket server) (client (receive _ (chunk :: chunks)).1)
      (receive _ (chunk :: chunks)).2).filterMap passedBy = _
    rw [hread]
  rw [hfirst]
  unfold client second
  rw [if_neg hne, if_neg hoptions]
  by_cases hagain : ReadsAgain chunk
  · rw [readRest_bind_of_readsAgain hagain, if_pos hagain, ← receive_fst]
    show (trace (socket server) (afterRest chunk (receive _ chunks).1) _).filterMap passedBy = _
    unfold afterRest
    split_ifs with hend
    · rw [passed_respond, hend, List.append_nil]
    · exact passed_respond _ _ _
  · rw [readRest_of_not hoptions hagain, if_neg hagain, List.append_nil]
    exact passed_respond _ _ _

/-! ### The head and the first chunk -/

lemma strstr_eq_none {needle t : Bytes} (h : ¬ needle <:+: t) : strstr needle t = none := by
  induction t with
  | nil =>
    rw [strstr, if_neg]
    rintro rfl
    exact h (List.infix_refl _)
  | cons c t ih =>
    rw [strstr, if_neg fun hprefix => h (List.isPrefixOf_iff_prefix.mp hprefix).isInfix]
    exact ih fun hin => h (List.infix_cons hin)

/-- A text is searched up to the end of the needle only. -/
lemma strstr_at {needle f : Bytes} (hn : needle ≠ []) (h : ¬ needle <:+: (f ++ needle).dropLast)
    (t : Bytes) : strstr needle (f ++ needle ++ t) = some (needle ++ t) := by
  induction f with
  | nil => exact strstr_self hn t
  | cons d f ih =>
    have hne : f ++ needle ≠ [] := by simp [hn]
    have hlast : (d :: f ++ needle).dropLast = d :: (f ++ needle).dropLast :=
      List.dropLast_cons_of_ne_nil hne
    rw [hlast] at h
    have hno : ¬ needle <+: d :: (f ++ needle ++ t) := by
      intro hprefix
      have hshort : d :: (f ++ needle).dropLast <+: d :: (f ++ needle ++ t) :=
        (List.prefix_cons_inj d).mpr ((List.dropLast_prefix _).trans (List.prefix_append _ _))
      refine h (List.prefix_of_prefix_length_le hprefix hshort ?_).isInfix
      rw [List.length_cons, List.length_dropLast, List.length_append]
      omega
    rw [List.cons_append, List.cons_append, strstr,
      if_neg fun hp => hno (List.isPrefixOf_iff_prefix.mp hp)]
    exact ih fun hin => h (List.infix_cons hin)

variable {p : Post} {chunk : Bytes}

lemma cstr_of_subset (p : Post) {t : Bytes} (h : ∀ c ∈ t, c ∈ p.head ++ p.body) : cstr t = t :=
  cstr_eq_self fun h0 => p.noNul (h 0 h0)

/-- The first chunk has the head: the body begins behind it. -/
lemma bodyIndex_head (b : Bytes) (h : ∀ c ∈ p.head ++ b, c ∈ p.head ++ p.body) :
    bodyIndex (p.head ++ b) = p.head.length := by
  obtain ⟨f, hf⟩ := p.ends
  have hfirst := p.first
  rw [← hf] at hfirst
  have hfound : strstr headEnd (cstr (p.head ++ b)) = some (headEnd ++ b) := by
    rw [cstr_of_subset p h, ← hf]
    exact strstr_at (by decide) hfirst b
  have hlen := congrArg List.length hf
  rw [List.length_append, show headEnd.length = 4 from rfl] at hlen
  unfold bodyIndex
  rw [hfound]
  dsimp only
  rw [cstr_of_subset p h, List.length_append, List.length_append,
    show headEnd.length = 4 from rfl]
  omega

/-- The first chunk breaks the head: it is all body. -/
lemma bodyIndex_broken {t : Bytes} (hhead : p.head = chunk ++ t) (ht : t ≠ []) :
    bodyIndex chunk = 0 := by
  have hchunk : cstr chunk = chunk :=
    cstr_of_subset p fun c hc => List.mem_append_left _ (hhead ▸ List.mem_append_left _ hc)
  have hlast : p.head.dropLast = chunk ++ t.dropLast := by
    rw [hhead, List.dropLast_append_of_ne_nil ht]
  have hnone : strstr headEnd chunk = none := by
    refine strstr_eq_none fun hin => p.first (hlast ▸ ?_)
    exact hin.trans (List.prefix_append _ _).isInfix
  unfold bodyIndex
  rw [hchunk, hnone]

lemma not_options {t : Bytes} (hne : chunk ≠ []) (hflat : chunk ++ t = p.head ++ p.body) :
    ¬ (ascii "OPTIONS").isPrefixOf chunk := by
  obtain ⟨c, cs, rfl⟩ := List.exists_cons_of_ne_nil hne
  obtain ⟨u, hu⟩ := p.method
  rw [← hu] at hflat
  have hc : c = 80 := (List.cons.inj hflat).1
  subst hc
  simp [ascii, List.isPrefixOf]

/-! ### When the body survives -/

/-- What comes second is what is left, if that is nothing or one chunk that is asked for. -/
lemma second_eq_flatten_iff {b : Bytes} {chunks : List Bytes} (hne : ∀ c ∈ chunks, c ≠ [])
    (hoptions : ¬ (ascii "OPTIONS").isPrefixOf chunk)
    (hreceived : chunk.length - bodyIndex chunk = b.length) :
    second chunk chunks = chunks.flatten ↔
      chunks = [] ∨ chunks.length = 1 ∧ (b ++ chunks.flatten).length ≤ contentLength chunk ∧
        contentLength chunk < maxRequestSize := by
  cases chunks with
  | nil =>
    refine iff_of_true ?_ (Or.inl rfl)
    unfold second
    split_ifs
    · exact List.take_nil
    · rfl
  | cons c cs =>
    have hpos : 0 < c.length := List.length_pos_iff.mpr (hne c List.mem_cons_self)
    have hcs : cs.flatten.length = 0 ↔ cs = [] := by
      rw [List.length_eq_zero_iff, List.flatten_eq_nil_iff]
      refine ⟨fun h => List.eq_nil_iff_forall_not_mem.mpr fun d hd => ?_, fun h => by simp [h]⟩
      exact hne d (List.mem_cons_of_mem _ hd) (h d hd)
    have hone : (c :: cs).length = 1 ↔ cs = [] := by simp
    unfold second
    rw [hreceived, List.headD_cons, List.flatten_cons, List.length_append, List.length_append, hone,
      ← hcs]
    split_ifs with hagain
    · have hmore := hagain.2
      rw [hreceived] at hmore
      constructor
      · intro htake
        have hlen := congrArg List.length htake
        rw [List.length_take, List.length_append] at hlen
        refine Or.inr ⟨?_, ?_, hmore.2⟩ <;> omega
      · rintro (h | ⟨hlast, hle, -⟩)
        · cases h
        · rw [List.length_eq_zero_iff.mp hlast, List.append_nil]
          exact List.take_of_length_le (by omega)
    · constructor
      · intro hnil
        have hlen := congrArg List.length hnil
        rw [List.length_append, List.length_nil] at hlen
        omega
      · rintro (h | ⟨-, hle, hmax⟩)
        · cases h
        · refine absurd ⟨hoptions, ?_, hmax⟩ hagain
          omega

/-- What is passed on when the first chunk has the head. -/
lemma passed_head {b : Bytes} {chunks : List Bytes} (hbody : p.body = b ++ chunks.flatten)
    (hsecond : second (p.head ++ b) chunks <+: chunks.flatten)
    (hindex : bodyIndex (p.head ++ b) = p.head.length) :
    cstr ((p.head ++ b ++ second (p.head ++ b) chunks).drop (bodyIndex (p.head ++ b))) =
      b ++ second (p.head ++ b) chunks := by
  rw [hindex, List.append_assoc, List.drop_left]
  refine cstr_of_subset p fun c hc => List.mem_append_right _ ?_
  rw [hbody]
  rcases List.mem_append.mp hc with hc | hc
  · exact List.mem_append_left _ hc
  · exact List.mem_append_right _ (hsecond.subset hc)

lemma second_prefixOf (chunk : Bytes) (chunks : List Bytes) :
    second chunk chunks <+: chunks.flatten := by
  unfold second
  split_ifs
  · cases chunks with
    | nil => rw [List.headD_nil, List.take_nil]; exact List.nil_prefix
    | cons c cs => exact (List.take_prefix _ _).trans (List.prefix_append _ _)
  · exact List.nil_prefix

/-- A broken head: two reads return the body if it begins the request and has their length. -/
lemma body_eq_append_iff {chunks : List Bytes}
    (hflat : chunk ++ chunks.flatten = p.head ++ p.body) :
    p.body = chunk ++ second chunk chunks ↔ p.body <+: p.head ++ p.body ∧
      p.body.length = chunk.length + (second chunk chunks).length := by
  have hreads : chunk ++ second chunk chunks <+: p.head ++ p.body := by
    rw [← hflat, List.prefix_append_right_inj]
    exact second_prefixOf chunk chunks
  constructor
  · intro hbody
    exact ⟨hbody ▸ hreads, (congrArg List.length hbody).trans List.length_append⟩
  · rintro ⟨hbegins, hlen⟩
    rw [← List.length_append] at hlen
    exact (List.prefix_of_prefix_length_le hbegins hreads hlen.le).eq_of_length hlen

/-- **Which segmentations a body survives.** -/
theorem whole_iff {chunks : List Bytes} (hne : ∀ c ∈ chunks, c ≠ [])
    (hflat : chunks.flatten = p.head ++ p.body) : Whole p chunks ↔ Survives p chunks := by
  cases chunks with
  | nil =>
    have hhead : p.head = [] := (List.append_eq_nil_iff.mp hflat.symm).1
    have hends := p.ends
    rw [hhead, List.suffix_nil] at hends
    cases hends
  | cons chunk chunks =>
    rw [List.flatten_cons] at hflat
    have hchunk := hne chunk List.mem_cons_self
    have hrest : ∀ c ∈ chunks, c ≠ [] := fun c hc => hne c (List.mem_cons_of_mem _ hc)
    have hoptions := not_options hchunk hflat
    have hlen := congrArg List.length hflat
    rw [List.length_append, List.length_append] at hlen
    have hsize := p.size
    unfold Whole Survives
    simp only [passed_eq chunks _ hchunk (by omega) hoptions, forall_const, List.cons.injEq,
      and_true]
    by_cases hle : p.head.length ≤ chunk.length
    · rw [if_pos hle]
      obtain ⟨b, rfl⟩ : p.head <+: chunk :=
        List.prefix_of_prefix_length_le (List.prefix_append _ _) (hflat ▸ List.prefix_append _ _)
          hle
      rw [List.append_assoc, List.append_cancel_left_eq] at hflat
      have hindex : bodyIndex (p.head ++ b) = p.head.length := by
        refine bodyIndex_head b fun c hc => ?_
        rw [← hflat, ← List.append_assoc]
        exact List.mem_append_left _ hc
      rw [passed_head hflat.symm (second_prefixOf _ _) hindex, ← hflat, List.append_cancel_left_eq]
      refine second_eq_flatten_iff hrest hoptions ?_
      rw [hindex, List.length_append, Nat.add_sub_cancel_left]
    · rw [if_neg hle]
      obtain ⟨t, ht⟩ : chunk <+: p.head :=
        List.prefix_of_prefix_length_le (hflat ▸ List.prefix_append _ _) (List.prefix_append _ _)
          (by omega)
      have hindex : bodyIndex chunk = 0 := by
        refine bodyIndex_broken ht.symm ?_
        rintro rfl
        exact hle (by rw [← ht, List.append_nil])
      have hagain : ReadsAgain chunk ↔
          chunk.length < contentLength chunk ∧ contentLength chunk < maxRequestSize := by
        unfold ReadsAgain
        rw [hindex, Nat.sub_zero, and_iff_right hoptions]
      have hsubset : ∀ c ∈ chunk ++ second chunk chunks, c ∈ p.head ++ p.body := by
        intro c hc
        rw [← hflat]
        rcases List.mem_append.mp hc with hc | hc
        · exact List.mem_append_left _ hc
        · exact List.mem_append_right _ ((second_prefixOf chunk chunks).subset hc)
      have hsecond : (second chunk chunks).length = secondSize chunk chunks := by
        unfold second secondSize
        simp only [hagain, hindex, Nat.sub_zero]
        split_ifs
        · exact List.length_take
        · rfl
      rw [hindex, List.drop_zero, cstr_of_subset p hsubset, eq_comm, body_eq_append_iff hflat,
        hsecond]

/-- A request whose body is an empty object. -/
def shortPost : Post where
  head := shortHead
  body := ascii "\x7b\x7d"
  method := ⟨ascii "/ HTTP/1.1" ++ [13, 10] ++ line "Content-Length: 2" ++ line "", by decide⟩
  ends := ⟨line "POST / HTTP/1.1" ++ ascii "Content-Length: 2", by decide⟩
  first := by decide
  declares := ⟨ascii "POST / HTTP/1.1", ascii "Content-Length", [32], ascii "2", line "",
    by decide, by decide, by decide, by decide, by decide, by decide⟩
  noNul := by decide
  size := by decide

/-- It survives if it comes as the head and the body. -/
theorem whole_short : Whole shortPost [shortPost.head, shortPost.body] := by
  refine (whole_iff (by decide) (by decide)).mpr ?_
  unfold Survives
  dsimp only
  rw [if_pos (by decide)]
  exact Or.inr ⟨rfl, by decide +kernel, by decide +kernel⟩

/-- It does not survive if its body comes in two chunks after the head. -/
theorem not_whole_short :
    ¬ Whole shortPost [shortPost.head, ascii "\x7b", ascii "\x7d"] := by
  intro hwhole
  have hpassed := hwhole fun _ => none
  revert hpassed
  decide +kernel

end EvmDb.Segments

import EvmDb.Block.TxRoundTrip
import EvmDb.Core.HexCodec
import EvmDb.Rpc.Chain
import EvmDb.Rpc.FirstParam
import EvmDb.Rpc.RequestFields
import EvmDb.Rpc.Responses
import EvmDb.Rpc.Signatures

/-!
From a signed transaction to the chain.

A wallet serialises a transaction, signs it, and sends the bytes in hexadecimal digits with some
request. What the server executes is that transaction, with the signer as its sender.
-/

namespace EvmDb.Wire

open EvmDb.Radix EvmDb.Rlp EvmDb.Checked EvmDb.Types EvmDb.Digits EvmDb.Hex EvmDb.Program
open EvmDb.Redis EvmDb.RlpBuffer EvmDb.TxDecode EvmDb.TxItems EvmDb.TxSigning EvmDb.TxRecover
open EvmDb.TxRoundTrip EvmDb.JsonText EvmDb.JsonTokens EvmDb.Request EvmDb.RequestFields
open EvmDb.FirstParam EvmDb.Responses EvmDb.HexCodec EvmDb.Ledger EvmDb.SendRaw EvmDb.Dispatch
open EvmDb.Chain EvmDb.Signatures
open EvmDb.Keccak (keccak256)

/-! ### Signed transactions -/

/-- A record without values for the fields that its type does not have; its bytes and its hash are
those of its code. -/
structure Normal (tx : Tx) : Prop where
  type : tx.type = .legacy ∨ tx.type = .eip1559
  chainId : tx.type = .legacy → tx.chainId = chainIdOf tx.v
  fees : tx.type = .legacy → tx.maxPriorityFee = .zero 32 ∧ tx.maxFeePerGas = .zero 32
  gasPrice : tx.type = .eip1559 → tx.gasPrice = .zero 32
  toAddr : tx.toIsNull = true → tx.toAddr = .zero 20
  raw : tx.raw = code tx
  hash : tx.hash = keccak256 (code tx)

/-- A transaction that is signed by its sender. -/
structure SignedTx (secp : Secp256k1) where
  tx : Tx
  normal : Normal tx
  authorised : Authorised secp tx
  short : (code tx).length < 2 ^ 31

variable {malloc : Malloc} {realloc : ℕ → Bool} {secp : Secp256k1} {tx : Tx}

/-- Some fields with the bytes, the hash and the sender of a transaction. -/
def sealed (tx : Tx) (fromAddr : Address) : Tx :=
  { tx with raw := code tx, hash := keccak256 (code tx), fromAddr := fromAddr }

lemma code_sealed (tx : Tx) (fromAddr : Address) : code (sealed tx fromAddr) = code tx := rfl

lemma signingCode_sealed (tx : Tx) (fromAddr : Address) :
    signingCode (sealed tx fromAddr) = signingCode tx := rfl

/-- A record as it is before the sender is recovered. -/
def unsent (tx : Tx) : Tx := { tx with fromAddr := .zero 20 }

lemma recipient_decoded (h : tx.toIsNull = true → tx.toAddr = .zero 20) :
    (if recipient tx.toAddr tx.toIsNull = [] then .zero 20
      else .rightAlign 20 (recipient tx.toAddr tx.toIsNull) : Address) = tx.toAddr := by
  by_cases hnull : tx.toIsNull = true
  · rw [if_pos (recipient_eq_nil.mpr hnull), h hnull]
  · rw [if_neg fun hnil => hnull (recipient_eq_nil.mp hnil)]
    unfold recipient
    rw [if_neg hnull, FixedBytes.rightAlign_bytes]

lemma legacy_decoded (h : Normal tx) (ht : tx.type = .legacy) (hm : ∀ n, malloc n = true) :
    (legacyOf tx).decoded malloc (code tx) = unsent tx := by
  have hto := recipient_decoded h.toAddr
  have hchain := h.chainId ht
  obtain ⟨hpriority, hfee⟩ := h.fees ht
  have hnull : decide (recipient tx.toAddr tx.toIsNull = []) = tx.toIsNull := by
    simp [recipient_eq_nil]
  unfold Legacy.decoded legacyOf
  dsimp only
  rw [word_uint, word_uint, word_uint, FixedBytes.rightAlign_strip, FixedBytes.rightAlign_strip,
    FixedBytes.rightAlign_strip, FixedBytes.rightAlign_strip, kept_of_malloc hm, hto, hnull,
    ← hchain, ← h.hash, ← h.raw, ← ht]
  unfold unsent Tx.zero
  dsimp only
  rw [← hpriority, hfee, ← hpriority]

lemma eip1559_decoded (h : Normal tx) (ht : tx.type = .eip1559) (hm : ∀ n, malloc n = true) :
    (eip1559Of tx).decoded malloc (minimal tx.v.toNat) (strip tx.r.bytes) (strip tx.s.bytes)
      (code tx) = unsent tx := by
  have hto := recipient_decoded h.toAddr
  have hprice := h.gasPrice ht
  have hnull : decide (recipient tx.toAddr tx.toIsNull = []) = tx.toIsNull := by
    simp [recipient_eq_nil]
  unfold Eip1559.decoded eip1559Of
  dsimp only
  rw [word_uint, word_uint, word_uint, word_uint, FixedBytes.rightAlign_strip,
    FixedBytes.rightAlign_strip, FixedBytes.rightAlign_strip, FixedBytes.rightAlign_strip,
    FixedBytes.rightAlign_strip, kept_of_malloc hm, hto, hnull, ← h.hash, ← h.raw, ← ht]
  unfold unsent Tx.zero
  dsimp only
  rw [← hprice]

/-- **A transaction in normal form is decoded from its code exactly**, besides the sender. -/
lemma decode_code (h : Normal tx) (hm : ∀ n, malloc n = true) (hlen : (code tx).length < 2 ^ 63) :
    txDecode malloc (code tx) = .ok (unsent tx) := by
  rcases h.type with ht | ht
  · rw [txDecode_legacy (hm _) (legacyOf tx) [] (by simp [code, ht]) (by omega),
      legacy_decoded h ht hm]
  · rw [txDecode_eip1559 (hm _) (eip1559Of tx) [] (by simp [code, ht]) (by omega) rfl]
    exact congrArg Read.ok (eip1559_decoded h ht hm)

/-- What is hashed for signing, if there is memory for it. -/
lemma signingPayload_eq (ht : tx.type = .legacy ∨ tx.type = .eip1559)
    (hr : ∀ n, realloc n = true) (hdata : tx.data.length < 2 ^ 62) :
    txSigningPayload realloc tx = some (signingCode tx) := by
  have hlen := length_signingCode_lt hdata
  unfold txSigningPayload
  rcases ht with ht | ht
  · have hcode : signingCode tx = [] ++ encodeList (encodeAll (signingItems tx)) := by
      simp [signingCode, typePrefix, ht, encode]
    have hnone : Writes realloc some [] :=
      ⟨fun h => by cases h; rw [List.append_nil], fun _ _ _ => ⟨_, rfl⟩⟩
    rw [hcode] at hlen ⊢
    rw [← wrapped (writes_payloadLegacy ht (by omega)) hnone hr hlen, ht]
    rfl
  · have hcode : signingCode tx = [0x02] ++ encodeList (encodeAll (signingItems tx)) := by
      simp [signingCode, typePrefix, ht, encode]
    rw [hcode] at hlen ⊢
    rw [← wrapped (writes_payloadEip1559 ht (by omega)) (writes_appendByte 0x02) hr hlen, ht]

/-- **The sender is recovered.** -/
lemma recover_unsent (w : SignedTx secp) (hr : ∀ n, realloc n = true) :
    txRecoverSender realloc secp (unsent w.tx) = (0, w.tx) := by
  obtain ⟨recid, pubkey, hrecid, hpubkey, hfrom⟩ := w.authorised
  have hdata := length_data_le_code w.tx
  have hshort := w.short
  have hpayload : txSigningPayload realloc (unsent w.tx) = some (signingCode w.tx) :=
    @signingPayload_eq realloc (unsent w.tx) w.normal.type hr (by
      show w.tx.data.length < 2 ^ 62
      omega)
  have hhash : txSigningHash realloc (unsent w.tx) = some (keccak256 (signingCode w.tx)) := by
    unfold txSigningHash
    rw [hpayload]
    rfl
  have hid : recoveryId (unsent w.tx).type (unsent w.tx).v = some recid := hrecid
  have hkey : secp (keccak256 (signingCode w.tx)) (unsent w.tx).r (unsent w.tx).s recid =
      some pubkey := hpubkey
  unfold txRecoverSender
  rw [hhash, hid]
  dsimp only
  rw [hkey]
  dsimp only
  unfold accountOf at hfrom
  rw [← hfrom]
  rfl

/-! ### Requests -/

/-- A request to send some bytes: an object in which the three fields stand first. The bytes are
the first parameter, in digits. -/
structure Posts (o : Object) (id raw : Bytes) : Prop where
  methodFirst : HasFirst o (ascii "method") (quoted (ascii "eth_sendRawTransaction"))
  idFirst : HasFirst o (ascii "id") id
  isId : IsId id
  paramsFirst : ∃ blank rest, (∀ c ∈ blank, isBetweenValues c = true) ∧
    HasFirst o (ascii "params") (91 :: (blank ++ (quoted (hexText raw) ++ rest)))

variable {o : Object} {id raw : Bytes}

lemma Posts.methodOf (h : Posts o id raw) :
    methodOf o.text = ascii "eth_sendRawTransaction" := by
  have hname : ∀ c ∈ quoted (ascii "method"), isWs c = false ∧ c ≠ 44 ∧ c ≠ 123 := by decide
  unfold Dispatch.methodOf Json.jsonParseMethod
  rw [jsonExtractString_quoted h.methodFirst hname (by decide) (by decide)]
  rfl

lemma Posts.idOf (h : Posts o id raw) : idOf o.text = id.take 31 := by
  unfold Dispatch.idOf Json.jsonParseMethod
  exact jsonExtractId_isId h.idFirst h.isId

/-- The first parameter is found. -/
lemma Posts.extract (h : Posts o id raw) :
    extractFirstParamString (cstr o.text) = some (hexText raw) := by
  obtain ⟨blank, rest, hblank, hparams⟩ := h.paramsFirst
  have hname : ∀ c ∈ quoted (ascii "params"), isWs c = false ∧ c ≠ 44 ∧ c ≠ 123 := by decide
  obtain ⟨t, c, more, -, hfound, hvalue⟩ := strstr_field hparams hname
    (by simp; rfl) (List.cons_ne_nil _ _)
  have hneedle : quoted (ascii "params") = ascii "\"params\"" := rfl
  have harray : findParamsArray o.text =
      some (blank ++ (quoted (hexText raw) ++ rest) ++ c :: more) := by
    unfold findParamsArray
    rw [← hneedle, hfound]
    dsimp only
    have hdrop : (quoted (ascii "params") ++ t).drop 8 = t := rfl
    rw [hdrop, hvalue]
    rfl
  have hquote : 34 ∉ hexText raw := by
    unfold hexText
    rw [List.mem_append, not_or]
    exact ⟨by decide, quote_notMem_hexBytes raw⟩
  rw [cstr_eq_self o.zero_notMem]
  unfold extractFirstParamString
  rw [harray]
  dsimp only
  have hsplit : blank ++ (quoted (hexText raw) ++ rest) ++ c :: more =
      blank ++ (34 :: (hexText raw ++ 34 :: (rest ++ c :: more))) := by
    simp [quoted]
  rw [hsplit, List.dropWhile_append_of_pos hblank, List.dropWhile_cons_of_neg (by decide)]
  exact extractQuotedString_eq_some.mpr ⟨_, rfl, by simp, (takeWhile_quote hquote _).symm⟩

/-- The request of a wallet for some bytes. -/
def sendRequest (raw : Bytes) : Object :=
  plainObject [] ws_nil [(ascii "jsonrpc", quoted (ascii "2.0")), (ascii "id", decimal 1),
    (ascii "method", quoted (ascii "eth_sendRawTransaction")),
    (ascii "params", 91 :: (commas [quoted (hexText raw)] ++ [93]))] (List.cons_ne_nil _ _)
    (by simp only [List.forall_mem_cons]; decide)
    (List.forall_mem_cons.mpr ⟨value_plain (by decide), List.forall_mem_cons.mpr
      ⟨value_decimal 1, List.forall_mem_cons.mpr ⟨value_plain (by decide),
        List.forall_mem_singleton.mpr
          (value_array (List.forall_mem_singleton.mpr (value_quoted (plain_hexText raw))))⟩⟩⟩)

/-- A wallet's request posts its bytes. -/
lemma posts_sendRequest (raw : Bytes) : Posts (sendRequest raw) (ascii "1") raw where
  methodFirst := by
    refine ⟨[_, _], _, [_], rfl, rfl, rfl, ?_, by simp [bare]⟩
    show ¬ quoted (ascii "method") <:+: ascii "\x7b\"jsonrpc\":\"2.0\",\"id\":1,"
    decide
  idFirst := by
    refine ⟨[_], _, [_, _], rfl, rfl, rfl, ?_, by simp [bare]⟩
    show ¬ quoted (ascii "id") <:+: ascii "\x7b\"jsonrpc\":\"2.0\","
    decide
  isId := .integer (integer_decimal 1)
  paramsFirst := by
    refine ⟨[], [93], by simp, [_, _, _], _, [], rfl, rfl, rfl, ?_, by simp [bare]⟩
    show ¬ quoted (ascii "params") <:+:
      ascii "\x7b\"jsonrpc\":\"2.0\",\"id\":1,\"method\":\"eth_sendRawTransaction\","
    decide

/-- **The transaction arrives.** -/
lemma readTransaction_posted (w : SignedTx secp) (hm : ∀ n, malloc n = true)
    (hr : ∀ n, realloc n = true) (h : Posts o id (code w.tx)) :
    readTransaction (parserOf malloc realloc secp) o.text = .ok w.tx := by
  have hshort := w.short
  have hpos : 0 < (code w.tx).length := by
    unfold code
    split
    · exact Nat.succ_pos _
    · exact length_encode_pos _
  have hdecode := @hexDecode_hexText (code w.tx) ((hexText (code w.tx)).length / 2) (by
    rw [length_hexText]
    omega)
  rw [HexCodec.bmod_eq_iff.mpr hshort] at hdecode
  unfold readTransaction
  rw [h.extract]
  dsimp only
  rw [hdecode]
  dsimp only
  rw [if_neg (by omega), Int.toNat_natCast, List.take_length]
  unfold parserOf
  dsimp only
  rw [decode_code w.normal hm (by omega)]
  dsimp only
  rw [recover_unsent w hr]
  rfl

/-- **What is executed is what was signed.** A transaction that its sender has signed and
serialised, posted with a request of this form, arrives with all its fields, and the server
executes it as the next block on any store, or says why it is not admitted and leaves the chain
as it is. -/
theorem posted_executed (rpc : Rpc) (hrpc : ∀ n, rpc.evm.realloc n = true)
    (hm : ∀ n, malloc n = true) (hr : ∀ n, realloc n = true) (w : SignedTx secp)
    (h : Posts o id (code w.tx)) (time : UInt64) (s : Store) :
    readTransaction (parserOf malloc realloc secp) o.text = .ok w.tx ∧
      Shows rpc.evm.uninit
        (run server (dispatchSingle rpc (parserOf malloc realloc secp) time o.text) s)
        (sendTx rpc time (id.take 31) w.tx (chainOf rpc.evm.uninit s)) := by
  have hread := @readTransaction_posted malloc realloc secp o id w hm hr h
  refine ⟨hread, ?_⟩
  have hrun := @run_send rpc (parserOf malloc realloc secp) time hrpc (idOf o.text) o.text s
  have hsend : send rpc (parserOf malloc realloc secp) time (idOf o.text) o.text
      (chainOf rpc.evm.uninit s) =
        sendTx rpc time (id.take 31) w.tx (chainOf rpc.evm.uninit s) := by
    unfold send
    rw [hread, h.idOf]
  rw [dispatchSingle_send _ _ _ _ h.methodOf, ← hsend]
  exact hrun

/-- The key of the account with the secret key one. -/
def keyOne : FixedBytes 65 :=
  ⟨[0x04, 0x79, 0xbe, 0x66, 0x7e, 0xf9, 0xdc, 0xbb, 0xac, 0x55, 0xa0, 0x62,
     0x95, 0xce, 0x87, 0x0b, 0x07, 0x02, 0x9b, 0xfc, 0xdb, 0x2d, 0xce, 0x28,
     0xd9, 0x59, 0xf2, 0x81, 0x5b, 0x16, 0xf8, 0x17, 0x98, 0x48, 0x3a, 0xda,
     0x77, 0x26, 0xa3, 0xc4, 0x65, 0x5d, 0xa4, 0xfb, 0xfc, 0x0e, 0x11, 0x08,
     0xa8, 0xfd, 0x17, 0xb4, 0x48, 0xa6, 0x85, 0x54, 0x19, 0x9c, 0x47, 0xd0,
     0x8f, 0xfb, 0x10, 0xd4, 0xb8], rfl⟩

/-- The transaction that is signed with it in `tests/test_tx.c`, with its signature. -/
def signedFields : Tx :=
  { Tx.zero with
    type := .eip1559
    chainId := 100100
    nonce := 7
    maxPriorityFee := .rightAlign 32 [0x3b, 0x9a, 0xca, 0x00]
    maxFeePerGas := .rightAlign 32 [0x77, 0x35, 0x94, 0x00]
    gasLimit := 100000
    toIsNull := true
    data := [0x60, 0x2a, 0x60, 0x00, 0x52, 0x60, 0x20, 0x60, 0x00, 0xf3]
    v := 1
    r := ⟨[0x05, 0xa9, 0x1d, 0xa0, 0x04, 0xca, 0x12, 0x80, 0xab, 0xb3, 0x7a, 0xa4,
          0x58, 0x56, 0xb8, 0xfc, 0xbe, 0xd3, 0x1d, 0x3b, 0x74, 0x2d, 0x67, 0xd3,
          0x40, 0xc9, 0x29, 0x5c, 0xa4, 0x3b, 0x95, 0xc4], rfl⟩
    s := ⟨[0x52, 0x70, 0x6b, 0xc8, 0x62, 0x3c, 0x3e, 0xca, 0xbd, 0xcd, 0x33, 0x9d,
          0x19, 0xd5, 0xea, 0xd4, 0x22, 0x96, 0x36, 0x18, 0x34, 0x7f, 0xfc, 0x66,
          0x66, 0x20, 0xae, 0xea, 0x55, 0xf3, 0xc8, 0x73], rfl⟩ }

/-- Recovery, at the hash and the signature of this transaction. -/
def recoverOne : Secp256k1 := fun hash r s recid =>
  if hash = keccak256 (signingCode signedFields) ∧ r = signedFields.r ∧ s = signedFields.s ∧
    recid = 1 then some keyOne else none

/-- The transaction as it is sent. -/
def signedOne : SignedTx recoverOne where
  tx := sealed signedFields (accountOf keyOne)
  normal :=
    { type := Or.inr rfl
      chainId := fun h => by cases h
      fees := fun h => by cases h
      gasPrice := fun _ => rfl
      toAddr := fun _ => rfl
      raw := (code_sealed signedFields (accountOf keyOne)).symm
      hash := congrArg keccak256 (code_sealed signedFields (accountOf keyOne)).symm }
  authorised := ⟨1, keyOne, rfl, if_pos ⟨congrArg keccak256 (signingCode_sealed _ _), rfl, rfl, rfl⟩,
    rfl⟩
  short := by
    rw [code_sealed]
    decide +kernel

/-- It arrives with a wallet's request. -/
theorem posted_executed_signedOne :
    readTransaction (parserOf (fun _ => true) (fun _ => true) recoverOne)
      (sendRequest (code signedOne.tx)).text = .ok signedOne.tx :=
  (posted_executed idleRpc (fun _ => rfl) (fun _ => rfl) (fun _ => rfl) signedOne
    (posts_sendRequest _) 0 fun _ => none).1

end EvmDb.Wire

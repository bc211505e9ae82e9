import ShredTools.Library.Bytes

/-!
# Transactions without signatures

A Gravity relay shows its bundles with every signature zeroed.  A transaction on the wire starts
with the number of its signatures, in compact form, and the signatures; `redactSignatures` finds
them from the bytes alone, whatever these are.

`redactSignatures_exact` says what it does: on all bytes it stays inside them and changes nothing
but the signatures, and the redacted transactions are equal if and only if the transactions have as
many signatures and the same message.

`shortU16` reads the compact number from three bytes at most, and `signatureRange` is where so many
signatures stand, cut off at the end of the bytes.  The number may be read wrongly if the bytes are
no transaction; the range is still one of theirs.  `wire` writes a transaction from its signatures
and its message, and `redactSignatures_wire_inj` says when two of them are alike after redaction.
-/

namespace ShredTools.Postpack

/-! ### Redacting -/

/-- The loop of `short_u16`, from byte `i` on. -/
def shortU16Loop (i value : ℕ) : List UInt8 → ℕ × ℕ
  | [] => (value, i)
  | byte :: bytes =>
    let value := value ||| (byte &&& 0x7f).toNat <<< (7 * i)
    if byte &&& 0x80 = 0 then (value, i + 1) else shortU16Loop (i + 1) value bytes

/-- `short_u16`: the value, and the bytes consumed. -/
def shortU16 (bytes : List UInt8) : ℕ × ℕ := shortU16Loop 0 0 (bytes.take 3)

/-- Where the signatures of a transaction are. -/
def signatureRange (transaction : List UInt8) : ℕ × ℕ :=
  let (count, offset) := shortU16 transaction
  (offset, min (offset + count * 64) transaction.length)

/-- `redact_signatures` -/
def redactSignatures (transaction : List UInt8) : List UInt8 :=
  let (start, stop) := signatureRange transaction
  transaction.take start ++ List.replicate (stop - start) 0 ++ transaction.drop stop

/-! ### Reading the number of signatures -/

lemma shortU16Loop_snd (i value : ℕ) (bytes : List UInt8) :
    i ≤ (shortU16Loop i value bytes).2 ∧ (shortU16Loop i value bytes).2 ≤ i + bytes.length := by
  induction bytes generalizing i value with
  | nil => exact ⟨le_rfl, le_rfl⟩
  | cons byte bytes ih =>
    unfold shortU16Loop
    dsimp only
    rw [List.length_cons]
    split_ifs with hlast
    · dsimp only
      omega
    · obtain ⟨hle, hlt⟩ := ih (i + 1) (value ||| (byte &&& 0x7f).toNat <<< (7 * i))
      omega

/-- The bytes after those consumed are not read. -/
lemma shortU16Loop_take (n i value : ℕ) (bytes : List UInt8) :
    let (_, stop) := shortU16Loop i value (bytes.take n)
    stop = i + bytes.length ∨
      ∀ rest, shortU16Loop i value ((bytes.take (stop - i) ++ rest).take n) =
        shortU16Loop i value (bytes.take n) := by
  induction n generalizing i value bytes with
  | zero => exact .inr fun rest => rfl
  | succ n ih =>
    cases bytes with
    | nil => exact .inl rfl
    | cons byte bytes =>
      rw [List.take_succ_cons, shortU16Loop]
      dsimp only
      split_ifs with hlast
      · refine .inr fun rest => ?_
        rw [Nat.add_sub_cancel_left, List.take_succ_cons, List.cons_append, List.take_succ_cons,
          shortU16Loop]
        exact if_pos hlast
      · have hle := (shortU16Loop_snd (i + 1) (value ||| (byte &&& 0x7f).toNat <<< (7 * i))
          (bytes.take n)).1
        rcases ih (i + 1) (value ||| (byte &&& 0x7f).toNat <<< (7 * i)) bytes with hall | hsome
        · rw [List.length_cons]
          exact .inl (by omega)
        · refine .inr fun rest => ?_
          rw [show ∀ j, i + 1 ≤ j → j - i = j - (i + 1) + 1 by omega, List.take_succ_cons,
            List.cons_append, List.take_succ_cons, shortU16Loop, if_neg hlast]
          · exact hsome rest
          · exact hle

/-- The signatures are in the transaction. -/
lemma signatureRange_le (transaction : List UInt8) :
    (signatureRange transaction).1 ≤ (signatureRange transaction).2 ∧
      (signatureRange transaction).2 ≤ transaction.length := by
  unfold signatureRange
  have hoffset : (shortU16 transaction).2 ≤ transaction.length := by
    have := (shortU16Loop_snd 0 0 (transaction.take 3)).2
    rw [List.length_take] at this
    unfold shortU16
    omega
  exact ⟨le_min (Nat.le_add_right _ _) hoffset, min_le_right _ _⟩

/-- One byte of seven bits. -/
lemma shortU16Loop_cons {i value : ℕ} (hvalue : value < 2 ^ (7 * i)) (byte : UInt8)
    (bytes : List UInt8) :
    shortU16Loop i value (byte :: bytes) =
      if byte.toNat < 128 then (value + byte.toNat * 2 ^ (7 * i), i + 1)
      else shortU16Loop (i + 1) (value + (byte.toNat - 128) * 2 ^ (7 * i)) bytes := by
  have hor : value ||| (byte &&& 0x7f).toNat <<< (7 * i) =
      value + byte.toNat % 128 * 2 ^ (7 * i) := by
    rw [UInt8.toNat_and_0x7f, Nat.or_comm, ← Nat.shiftLeft_add_eq_or_of_lt hvalue,
      Nat.shiftLeft_eq, add_comm]
  have hbyte := byte.toNat_lt
  rw [shortU16Loop]
  simp only [UInt8.and_0x80_eq_zero_iff, hor]
  split_ifs with hlast
  · rw [Nat.mod_eq_of_lt hlast]
  · rw [show byte.toNat % 128 = byte.toNat - 128 by omega]

/-- A number in compact form reads as it is. -/
lemma shortU16_compactU16 {n : ℕ} (hn : n < 2 ^ 16) (rest : List UInt8) :
    shortU16 (compactU16 n ++ rest) = (n, (compactU16 n).length) := by
  unfold shortU16 compactU16
  split_ifs with hone htwo
  · rw [List.singleton_append, List.take_succ_cons, shortU16Loop_cons (by decide),
      UInt8.toNat_ofNat', if_pos (by omega)]
    rw [pow_zero, mul_one, Nat.zero_add]
    exact Prod.ext (by dsimp only; omega) rfl
  · rw [List.cons_append, List.singleton_append, List.take_succ_cons, List.take_succ_cons,
      shortU16Loop_cons (by decide), UInt8.toNat_ofNat', if_neg (by omega),
      shortU16Loop_cons (by omega), UInt8.toNat_ofNat', if_pos (by omega)]
    exact Prod.ext (by dsimp only; omega) rfl
  · rw [List.cons_append, List.cons_append, List.singleton_append, List.take_succ_cons,
      List.take_succ_cons, List.take_succ_cons, shortU16Loop_cons (by decide), UInt8.toNat_ofNat',
      if_neg (by omega), shortU16Loop_cons (by omega), UInt8.toNat_ofNat', if_neg (by omega),
      shortU16Loop_cons (by omega), UInt8.toNat_ofNat', if_pos (by omega)]
    exact Prod.ext (by dsimp only; omega) rfl

/-! ### What redacting keeps -/

/-- The length stays. -/
lemma length_redactSignatures (transaction : List UInt8) :
    (redactSignatures transaction).length = transaction.length := by
  obtain ⟨hle, hlen⟩ := signatureRange_le transaction
  unfold redactSignatures
  rw [List.length_append, List.length_append, List.length_take, List.length_replicate,
    List.length_drop]
  omega

/-- Byte by byte. -/
lemma getElem?_redactSignatures (transaction : List UInt8) (i : ℕ) :
    (redactSignatures transaction)[i]? =
      if (signatureRange transaction).1 ≤ i ∧ i < (signatureRange transaction).2 then some 0
      else transaction[i]? := by
  obtain ⟨hle, hlen⟩ := signatureRange_le transaction
  unfold redactSignatures
  generalize signatureRange transaction = range at *
  obtain ⟨start, stop⟩ := range
  dsimp only at *
  have htake : (transaction.take start).length = start := by
    rw [List.length_take]
    omega
  rw [List.append_assoc]
  rcases lt_or_ge i start with hbefore | hfrom
  · rw [List.getElem?_append_left (htake.symm ▸ hbefore), List.getElem?_take_of_lt hbefore,
      if_neg (by omega)]
  rw [List.getElem?_append_right (htake.symm ▸ hfrom), htake]
  rcases lt_or_ge i stop with hin | hafter
  · rw [List.getElem?_append_left (by rw [List.length_replicate]; omega),
      List.getElem?_replicate_of_lt (by omega), if_pos ⟨hfrom, hin⟩]
  · rw [List.getElem?_append_right (by rw [List.length_replicate]; omega), List.length_replicate,
      List.getElem?_drop, if_neg (by omega), show stop + (i - start - (stop - start)) = i by omega]

/-- The signatures are where they were. -/
lemma signatureRange_redactSignatures (transaction : List UInt8) :
    signatureRange (redactSignatures transaction) = signatureRange transaction := by
  have hshort : shortU16 (redactSignatures transaction) = shortU16 transaction := by
    rcases shortU16Loop_take 3 0 0 transaction with hall | hsome
    · -- the bytes are over before the signatures begin
      have hnone : redactSignatures transaction = transaction := by
        have hstart : (signatureRange transaction).1 = transaction.length :=
          hall.trans (Nat.zero_add _)
        refine List.ext_getElem? fun i => ?_
        have hlen := (signatureRange_le transaction).2
        rw [getElem?_redactSignatures, if_neg (by omega)]
      rw [hnone]
    · have hsplit : redactSignatures transaction =
          transaction.take (signatureRange transaction).1 ++ _ := List.append_assoc _ _ _
      rw [hsplit]
      exact hsome _
  unfold signatureRange
  rw [hshort, length_redactSignatures]

/-- A transaction on the wire. -/
def wire (signatures : List (Vector UInt8 64)) (message : List UInt8) : List UInt8 :=
  compactU16 signatures.length ++ (signatures.flatMap Vector.toList ++ message)

/-- The signatures of a transaction are zeroed. -/
lemma redactSignatures_wire {signatures : List (Vector UInt8 64)}
    (hfew : signatures.length < 2 ^ 16) (message : List UInt8) :
    redactSignatures (wire signatures message) =
      compactU16 signatures.length ++ (List.replicate (signatures.length * 64) 0 ++ message) := by
  have hbytes : (signatures.flatMap Vector.toList).length = signatures.length * 64 := by
    clear hfew
    induction signatures with
    | nil => rfl
    | cons signature signatures ih =>
      rw [List.flatMap_cons, List.length_append, ih, Vector.length_toList, List.length_cons,
        Nat.succ_mul, Nat.add_comm]
  have hrange : signatureRange (wire signatures message) =
      ((compactU16 signatures.length).length,
        (compactU16 signatures.length).length + signatures.length * 64) := by
    unfold signatureRange wire
    rw [shortU16_compactU16 hfew, List.length_append, List.length_append, hbytes]
    exact Prod.ext rfl (min_eq_left (by omega))
  unfold redactSignatures
  rw [hrange]
  dsimp only
  rw [Nat.add_sub_cancel_left]
  unfold wire
  rw [List.take_left, ← List.drop_drop, List.drop_left, ← hbytes, List.drop_left, List.append_assoc]

/-- Nothing else is lost. -/
theorem redactSignatures_wire_inj {signatures signatures' : List (Vector UInt8 64)}
    (hfew : signatures.length < 2 ^ 16) (hfew' : signatures'.length < 2 ^ 16)
    {message message' : List UInt8} :
    redactSignatures (wire signatures message) = redactSignatures (wire signatures' message') ↔
      signatures.length = signatures'.length ∧ message = message' := by
  rw [redactSignatures_wire hfew, redactSignatures_wire hfew']
  constructor
  · intro h
    have hcount := congrArg Prod.fst (congrArg shortU16 h)
    rw [shortU16_compactU16 hfew, shortU16_compactU16 hfew'] at hcount
    dsimp only at hcount
    rw [hcount] at h
    exact ⟨hcount, List.append_cancel_left (List.append_cancel_left h)⟩
  · intro ⟨hcount, hmessage⟩
    rw [hcount, hmessage]

/-- **What redacting does.**  On all bytes it stays inside them, zeroes what it takes for signatures
and leaves the rest, so that redacting again changes nothing.  Of a transaction it zeroes exactly
the signatures: redacted transactions are equal if and only if there are as many signatures and the
messages are the same. -/
theorem redactSignatures_exact (transaction : List UInt8) :
    let (start, stop) := signatureRange transaction
    let redacted := redactSignatures transaction
    (start ≤ stop ∧ stop ≤ transaction.length) ∧
      redacted.length = transaction.length ∧
      (∀ i, redacted[i]? = if start ≤ i ∧ i < stop then some 0 else transaction[i]?) ∧
      redactSignatures redacted = redacted ∧
      ∀ (signatures : List (Vector UInt8 64)) (message : List UInt8),
        signatures.length < 2 ^ 16 → transaction = wire signatures message →
        redacted = compactU16 signatures.length ++
            (List.replicate (signatures.length * 64) 0 ++ message) ∧
          ∀ (signatures' : List (Vector UInt8 64)) (message' : List UInt8),
            signatures'.length < 2 ^ 16 →
            (redacted = redactSignatures (wire signatures' message') ↔
              signatures.length = signatures'.length ∧ message = message') := by
  refine ⟨signatureRange_le transaction, length_redactSignatures transaction,
    getElem?_redactSignatures transaction, ?_, ?_⟩
  · refine List.ext_getElem? fun i => ?_
    rw [getElem?_redactSignatures, signatureRange_redactSignatures, getElem?_redactSignatures]
    split_ifs <;> rfl
  · rintro signatures message hfew rfl
    exact ⟨redactSignatures_wire hfew message,
      fun signatures' message' hfew' => redactSignatures_wire_inj hfew hfew'⟩

end ShredTools.Postpack

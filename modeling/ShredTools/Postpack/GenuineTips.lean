import Mathlib.Algebra.BigOperators.Group.List.Basic
import Mathlib.Algebra.GroupWithZero.Nat
import Mathlib.Data.Nat.Digits.Defs
import ShredTools.Postpack.TipsOnce

/-!
# Which instructions tip

A tip is a transfer of the System Program to a tip account: what this program sends when it gets the
instruction (`systemSends`), which is said here without the parser of the service.  `parse_tip`
reads the data and the accounts of an instruction just as the System Program does
(`transfer_eq_systemSends`), but it does not look at the program that the instruction is addressed
to, and it only knows the static account keys, though an account may also come from an address
lookup table.

So the instructions of a transaction fall into three kinds: those that tip between static accounts
(`tipMade`), those of another program that read as a tip (`tipFaked`), and those that tip with an
account of a lookup table (`tipHidden`).  What `parse_tip` adds up is the real tips exactly when no
other program is sent something that reads as a tip and no tip goes through a lookup table, or the
real tips fill the counter by themselves (`parseTip_genuine_iff`).
-/

namespace ShredTools.Postpack

open ShredTools.Audit (Pubkey)

/-- The System Program. -/
def systemProgram : Pubkey := Vector.replicate 32 0

/-- A transaction with the program of each instruction, which the sanitizer makes sure is one of the
static account keys. -/
structure AddressedView extends TransactionView where
  /-- `program_id_index`, by instruction. -/
  programIdIndexes : List (Fin staticAccountKeys.length)
  /-- Each instruction has a program. -/
  length_eq : programIdIndexes.length = instructions.length

/-- An instruction with the program that it is addressed to. -/
structure Addressed where
  /-- The program. -/
  program : Pubkey
  /-- The accounts and the data. -/
  instruction : List UInt8 × List UInt8

/-- The instructions with their programs. -/
def AddressedView.addressed (view : AddressedView) : List Addressed :=
  List.zipWith (fun index => Addressed.mk (view.staticAccountKeys.get index))
    view.programIdIndexes view.instructions

/-- Only the instructions are read when tips are added up. -/
lemma AddressedView.map_instruction (view : AddressedView) :
    view.addressed.map Addressed.instruction = view.instructions := by
  unfold addressed
  rw [List.map_zipWith]
  refine List.ext_getElem ?_ fun i hi hi' => ?_
  · rw [List.length_zipWith, view.length_eq, Nat.min_self]
  · rw [List.getElem_zipWith]

/-! ### What an instruction tips -/

/-- What the System Program sends to whom when it gets an instruction: the first four bytes of the
data are its number 2, the next eight the lamports, the lowest byte first in both; the first account
pays and the second receives.  Further bytes and accounts are left alone. -/
def systemSends (keys : List Pubkey) (instruction : List UInt8 × List UInt8) :
    Option (Pubkey × ℕ) :=
  let (accounts, data) := instruction
  let number := Nat.ofDigits 256 ((data.take 4).map UInt8.toNat)
  let lamports := Nat.ofDigits 256 (((data.drop 4).take 8).map UInt8.toNat)
  match accounts with
  | source :: target :: _ =>
    if 12 ≤ data.length ∧ number = 2 ∧ source.toNat < keys.length then
      keys[target.toNat]?.map fun receiver => (receiver, lamports)
    else none
  | _ => none

section Tips

variable (tipAccounts keys : List Pubkey)

/-- The lamports that the System Program would send to a tip account for an instruction, whatever
program the instruction is addressed to. -/
def tipRead (instruction : List UInt8 × List UInt8) : ℕ :=
  match systemSends keys instruction with
  | none => 0
  | some (receiver, lamports) => if tipAccounts.contains receiver then lamports else 0

/-- The lamports that an instruction really tips: those of a transfer of the System Program, among
all accounts of the transaction. -/
def tipMade (i : Addressed) : ℕ :=
  if i.program = systemProgram then tipRead tipAccounts keys i.instruction else 0

/-- What an instruction of another program reads as tipping. -/
def tipFaked (i : Addressed) : ℕ :=
  if i.program = systemProgram then 0 else tipRead tipAccounts keys i.instruction

/-- What an instruction tips with an account of a lookup table. -/
def tipHidden (loaded : List Pubkey) (i : Addressed) : ℕ :=
  if systemSends keys i.instruction = none then
    tipMade tipAccounts (keys ++ loaded) i
  else 0

end Tips

variable {tipAccounts keys loaded : List Pubkey}

/-- What reads as a transfer is one: the kind and the lamports in the data, and two accounts that
exist, the second of which receives. -/
theorem transfer_eq_some_iff {data accounts : List UInt8} {receiver : Pubkey} {lamports : ℕ} :
    transfer data accounts keys = some (receiver, lamports) ↔
      12 ≤ data.length ∧ data.take 4 = systemTransfer ∧
        fromLeBytes ((data.drop 4).take 8) = lamports ∧
        (∃ source, accounts[0]? = some source ∧ source.toNat < keys.length) ∧
        ∃ target, accounts[1]? = some target ∧ keys[target.toNat]? = some receiver := by
  have hsource : ∀ source : UInt8, (∃ key, keys[source.toNat]? = some key) ↔
      source.toNat < keys.length := by
    intro source
    constructor
    · rintro ⟨key, hkey⟩
      exact (List.getElem?_eq_some_iff.mp hkey).1
    · intro hlt
      exact ⟨_, List.getElem?_eq_getElem hlt⟩
  by_cases hlength : 12 ≤ data.length
  · have hkind : getRange data 0 4 = some (data.take 4) := if_pos (by omega)
    have hamount : getRange data 4 12 = some ((data.drop 4).take 8) := if_pos hlength
    unfold transfer
    rw [hkind, hamount]
    by_cases hsystem : data.take 4 = systemTransfer
    · simp only [Option.bind_eq_bind, Option.bind_some, hsystem, ne_eq, not_true_eq_false,
        if_false, Option.bind_eq_some_iff, Option.some.injEq, Prod.mk.injEq, hlength, true_and,
        ← hsource]
      constructor
      · rintro ⟨source, hfirst, key, hkey, target, hsecond, receiver', hreceiver, rfl, rfl⟩
        exact ⟨rfl, ⟨source, hfirst, key, hkey⟩, target, hsecond, hreceiver⟩
      · rintro ⟨rfl, ⟨source, hfirst, key, hkey⟩, target, hsecond, hreceiver⟩
        exact ⟨source, hfirst, key, hkey, target, hsecond, receiver, hreceiver, rfl, rfl⟩
    · simp [hsystem]
  · have hamount : getRange data 4 12 = none := if_neg hlength
    unfold transfer
    rw [hamount]
    constructor
    · intro h
      obtain ⟨kind, -, h⟩ := Option.bind_eq_some_iff.mp h
      by_cases hsystem : kind = systemTransfer <;> simp [hsystem] at h
    · exact fun h => (hlength h.1).elim

/-- The number that the bytes of a list make is the one that they are the digits of. -/
lemma fromLeBytes_eq_ofDigits (bytes : List UInt8) :
    fromLeBytes bytes = Nat.ofDigits 256 (bytes.map UInt8.toNat) := by
  induction bytes with
  | nil => rfl
  | cons byte bytes ih =>
    rw [fromLeBytes, ih, List.map_cons, Nat.ofDigits_cons]

/-- The first four bytes are those of a transfer if they make the number 2. -/
lemma take_eq_systemTransfer_iff {data : List UInt8} (hlength : 12 ≤ data.length) :
    data.take 4 = systemTransfer ↔ Nat.ofDigits 256 ((data.take 4).map UInt8.toNat) = 2 := by
  constructor
  · intro hkind
    rw [hkind]
    rfl
  · intro hnumber
    have hbytes : ∀ bytes : List UInt8, ∀ digit ∈ bytes.map UInt8.toNat, digit < 256 :=
      fun bytes => List.forall_mem_map.mpr fun byte _ => byte.toNat_lt
    have hsame : ((data.take 4).map UInt8.toNat).length =
        (systemTransfer.map UInt8.toNat).length := by
      rw [List.length_map, List.length_take, Nat.min_eq_left (by omega)]
      rfl
    have hdigits : (data.take 4).map UInt8.toNat = systemTransfer.map UInt8.toNat :=
      Nat.ofDigits_inj_of_len_eq (by decide) hsame (hbytes _) (hbytes _) (hnumber.trans rfl)
    exact List.map_injective_iff.mpr (fun _ _ => UInt8.toNat_inj.mp) hdigits

/-- **`transfer` reads what the System Program sends**, whatever program gets the instruction. -/
theorem transfer_eq_systemSends (keys : List Pubkey) (instruction : List UInt8 × List UInt8) :
    transfer instruction.2 instruction.1 keys = systemSends keys instruction := by
  obtain ⟨accounts, data⟩ := instruction
  refine Option.ext fun sent => ?_
  obtain ⟨receiver, lamports⟩ := sent
  rw [transfer_eq_some_iff, fromLeBytes_eq_ofDigits]
  unfold systemSends
  match accounts with
  | [] => simp
  | [source] => simp
  | source :: target :: others =>
    by_cases hlength : 12 ≤ data.length
    · simp [hlength, take_eq_systemTransfer_iff hlength]
      tauto
    · simp [hlength]

/-- A transfer between static accounts is the same among all accounts. -/
lemma transfer_append {data accounts : List UInt8} {sent : Pubkey × ℕ}
    (h : transfer data accounts keys = some sent) :
    transfer data accounts (keys ++ loaded) = some sent := by
  obtain ⟨receiver, lamports⟩ := sent
  obtain ⟨hlength, hkind, hamount, ⟨source, hfirst, hsource⟩, target, hsecond, hreceiver⟩ :=
    transfer_eq_some_iff.mp h
  obtain ⟨htarget, -⟩ := List.getElem?_eq_some_iff.mp hreceiver
  refine transfer_eq_some_iff.mpr
    ⟨hlength, hkind, hamount, ⟨source, hfirst, ?_⟩, target, hsecond, ?_⟩
  · rw [List.length_append]
    exact Nat.lt_add_right _ hsource
  · rw [List.getElem?_append_left htarget, hreceiver]

/-- What reads as a tip is made, unless it is faked. -/
lemma tipRead_eq (i : Addressed) :
    tipRead tipAccounts keys i.instruction =
      tipMade tipAccounts keys i + tipFaked tipAccounts keys i := by
  unfold tipMade tipFaked
  by_cases hsystem : i.program = systemProgram
  · rw [if_pos hsystem, if_pos hsystem, Nat.add_zero]
  · rw [if_neg hsystem, if_neg hsystem, Nat.zero_add]

/-- What the System Program sends between static accounts it sends among all accounts. -/
lemma systemSends_append {instruction : List UInt8 × List UInt8} {sent : Pubkey × ℕ}
    (h : systemSends keys instruction = some sent) :
    systemSends (keys ++ loaded) instruction = some sent := by
  rw [← transfer_eq_systemSends] at h ⊢
  exact transfer_append h

/-- Among all accounts, the tips made are those between static accounts and the hidden ones. -/
lemma tipMade_append (i : Addressed) :
    tipMade tipAccounts (keys ++ loaded) i =
      tipMade tipAccounts keys i + tipHidden tipAccounts keys loaded i := by
  unfold tipHidden
  cases hsends : systemSends keys i.instruction with
  | none =>
    have hnone : tipMade tipAccounts keys i = 0 := by
      simp [tipMade, tipRead, hsends]
    rw [if_pos rfl, hnone, Nat.zero_add]
  | some sent =>
    rw [if_neg (Option.some_ne_none sent), Nat.add_zero]
    unfold tipMade tipRead
    rw [hsends, systemSends_append hsends]

/-- One instruction in the loop of `parse_tip`. -/
lemma addTip_eq (lamports : ℕ) (instruction : List UInt8 × List UInt8)
    (hlamports : lamports ≤ u64Size - 1) :
    addTip tipAccounts keys lamports instruction =
      min (lamports + tipRead tipAccounts keys instruction) (u64Size - 1) := by
  unfold addTip tipRead
  rw [transfer_eq_systemSends]
  cases systemSends keys instruction with
  | none => exact (Nat.min_eq_left hlamports).symm
  | some sent =>
    dsimp only
    by_cases htip : tipAccounts.contains sent.1 = true
    · rw [if_pos htip, if_pos htip]
    · rw [if_neg htip, if_neg htip]
      exact (Nat.min_eq_left hlamports).symm

/-- The loop of `parse_tip` adds up what the instructions read as tipping, up to the end of the
counter. -/
lemma foldl_addTip (tipAccounts keys : List Pubkey)
    (instructions : List (List UInt8 × List UInt8)) (lamports : ℕ)
    (hlamports : lamports ≤ u64Size - 1) :
    instructions.foldl (addTip tipAccounts keys) lamports =
      min (lamports + (instructions.map (tipRead tipAccounts keys)).sum) (u64Size - 1) := by
  induction instructions generalizing lamports with
  | nil => exact (Nat.min_eq_left hlamports).symm
  | cons instruction instructions ih =>
    rw [List.foldl_cons, addTip_eq lamports instruction hlamports, ih _ (min_le_right _ _),
      List.map_cons, List.sum_cons]
    omega

/-! ### When the tips credited are the tips made -/

namespace AddressedView

variable (view : AddressedView) (tipAccounts loaded : List Pubkey)

/-- The lamports credited are those of the transfers of the System Program to tip accounts, with
`loaded` the accounts from lookup tables, and no instruction of another program adds to them. -/
structure CreditsGenuine (lamports : ℕ) : Prop where
  /-- The tips made are credited. -/
  made : lamports = min
    (view.addressed.map (tipMade tipAccounts (view.staticAccountKeys ++ loaded))).sum (u64Size - 1)
  /-- Without the instructions of other programs the same is credited. -/
  others : lamports =
    (((view.addressed.filter (·.program = systemProgram)).map Addressed.instruction).foldl
      (addTip tipAccounts view.staticAccountKeys) 0)

/-- No instruction is misread: none of another program reads as a tip, and none tips with an account
of a lookup table. -/
def NoneMisread : Prop :=
  ∀ i ∈ view.addressed, tipFaked tipAccounts view.staticAccountKeys i = 0 ∧
    tipHidden tipAccounts view.staticAccountKeys loaded i = 0

instance : Decidable (view.NoneMisread tipAccounts loaded) :=
  inferInstanceAs (Decidable (∀ i ∈ view.addressed, _))

variable {view tipAccounts loaded}

/-- What the instructions of the System Program read as tipping is what they make. -/
lemma sum_filter_system (addressed : List Addressed) :
    (((addressed.filter (·.program = systemProgram)).map Addressed.instruction).map
      (tipRead tipAccounts keys)).sum = (addressed.map (tipMade tipAccounts keys)).sum := by
  induction addressed with
  | nil => rfl
  | cons i addressed ih =>
    rw [List.map_cons, List.sum_cons, ← ih]
    by_cases hsystem : i.program = systemProgram
    · rw [List.filter_cons_of_pos (by simpa using hsystem), List.map_cons, List.map_cons,
        List.sum_cons, tipMade, if_pos hsystem]
    · rw [List.filter_cons_of_neg (by simpa using hsystem), tipMade, if_neg hsystem, Nat.zero_add]

/-- **When only real tips are credited**: `parse_tip` adds up the tips made, and nothing else,
exactly when no instruction is misread, or the transfers between static accounts fill the counter by
themselves. -/
theorem creditsGenuine_iff :
    view.CreditsGenuine tipAccounts loaded
        (view.instructions.foldl (addTip tipAccounts view.staticAccountKeys) 0) ↔
      view.NoneMisread tipAccounts loaded ∨ u64Size - 1 ≤
        (view.addressed.map (tipMade tipAccounts view.staticAccountKeys)).sum := by
  have hfit : 0 ≤ u64Size - 1 := Nat.zero_le _
  -- The three sums: what is made between static accounts, what is faked and what is hidden.
  have hread : (view.instructions.map (tipRead tipAccounts view.staticAccountKeys)).sum =
      (view.addressed.map (tipMade tipAccounts view.staticAccountKeys)).sum +
        (view.addressed.map (tipFaked tipAccounts view.staticAccountKeys)).sum := by
    rw [← view.map_instruction, List.map_map, ← List.sum_map_add]
    exact congrArg List.sum (List.map_congr_left fun i _ => tipRead_eq i)
  have hmade : (view.addressed.map (tipMade tipAccounts (view.staticAccountKeys ++ loaded))).sum =
      (view.addressed.map (tipMade tipAccounts view.staticAccountKeys)).sum +
        (view.addressed.map (tipHidden tipAccounts view.staticAccountKeys loaded)).sum := by
    rw [← List.sum_map_add]
    exact congrArg List.sum (List.map_congr_left fun i _ => tipMade_append i)
  have hnone : view.NoneMisread tipAccounts loaded ↔
      (view.addressed.map (tipFaked tipAccounts view.staticAccountKeys)).sum = 0 ∧
        (view.addressed.map (tipHidden tipAccounts view.staticAccountKeys loaded)).sum = 0 := by
    simp only [NoneMisread, List.sum_eq_zero_iff_forall_eq_nat, List.forall_mem_map, forall_and]
  have hlamports := foldl_addTip tipAccounts view.staticAccountKeys view.instructions 0 hfit
  have hothers := foldl_addTip tipAccounts view.staticAccountKeys
    ((view.addressed.filter (·.program = systemProgram)).map Addressed.instruction) 0 hfit
  rw [Nat.zero_add] at hlamports hothers
  rw [hread] at hlamports
  rw [sum_filter_system] at hothers
  rw [hnone]
  constructor
  · rintro ⟨hmadeEq, hothersEq⟩
    rw [hlamports, hmade] at hmadeEq
    rw [hlamports, hothers] at hothersEq
    omega
  · intro hcase
    refine ⟨?_, ?_⟩
    · rw [hlamports, hmade]
      omega
    · rw [hlamports, hothers]
      omega

end AddressedView

/-- **Real tips are credited exactly when no instruction is misread**, whatever transaction parses
and has its signatures verified, whatever the tip accounts are and whichever accounts its lookup
tables hold. -/
theorem parseTip_genuine_iff (code : TransactionCode) (wire : List UInt8)
    (tipAccounts loaded : List Pubkey) {view : AddressedView}
    (hparse : code.tryNewSanitized wire = some view.toTransactionView)
    (hverify : ∀ signed ∈ view.signatures.zip view.staticAccountKeys,
      code.verify signed.1 signed.2 view.messageData = true) :
    ∃ tip, code.parseTip wire tipAccounts = .ok tip ∧
      (view.CreditsGenuine tipAccounts loaded tip.lamports ↔
        view.NoneMisread tipAccounts loaded ∨ u64Size - 1 ≤
          (view.addressed.map (tipMade tipAccounts view.staticAccountKeys)).sum) := by
  have hall : ¬ ((view.signatures.zip view.staticAccountKeys).any fun signed =>
      !code.verify signed.1 signed.2 view.messageData) = true := by
    rw [List.any_eq_true]
    rintro ⟨signed, hsigned, hrefused⟩
    rw [hverify signed hsigned] at hrefused
    exact Bool.false_ne_true hrefused
  refine ⟨⟨code.showSignature view.signature,
    view.instructions.foldl (addTip tipAccounts view.staticAccountKeys) 0⟩, ?_,
    AddressedView.creditsGenuine_iff⟩
  unfold TransactionCode.parseTip
  rw [hparse]
  exact if_neg hall

/-- `Store.demoWire`, parsed. -/
def demoView : AddressedView where
  signature := Store.demoSignature
  otherSignatures := []
  staticAccountKeys := [Store.demoPayer, Store.demoTipAccount, systemProgram]
  messageData := Store.demoMessage
  instructions := [([0, 1], [2, 0, 0, 0] ++ [128, 150, 152, 0, 0, 0, 0, 0])]
  programIdIndexes := [⟨2, by decide⟩]
  length_eq := rfl

/-- A transfer of ten million lamports by itself is credited as it is made. -/
theorem parseTip_genuine_iff_demo :
    ∃ tip, Store.demoCode.parseTip Store.demoWire [Store.demoTipAccount] = .ok tip ∧
      demoView.CreditsGenuine [Store.demoTipAccount] [] tip.lamports ∧
        tip.lamports = 10000000 := by
  have hparse : Store.demoCode.tryNewSanitized Store.demoWire =
      some demoView.toTransactionView := by
    dsimp only [Store.demoCode]
    rw [if_pos rfl]
    rfl
  have hsigned : ∀ signed ∈ demoView.signatures.zip demoView.staticAccountKeys,
      Store.demoCode.verify signed.1 signed.2 demoView.messageData = true := by
    decide +kernel
  have hread : demoView.NoneMisread [Store.demoTipAccount] [] := by
    decide +kernel
  obtain ⟨tip, htip, hgenuine⟩ :=
    parseTip_genuine_iff Store.demoCode Store.demoWire [Store.demoTipAccount] [] hparse hsigned
  have hcredited := hgenuine.mpr (.inl hread)
  exact ⟨tip, htip, hcredited, hcredited.made.trans (by decide +kernel)⟩

/-! ### A memo that reads as a tip -/

/-- The first program of memos, which takes any text and any accounts. -/
def memoProgram : Pubkey where
  toArray := List.toArray
    [5, 74, 83, 80, 248, 93, 200, 130, 214, 20, 165, 86, 114, 120, 138, 41, 109, 223, 30, 171,
      171, 208, 166, 6, 120, 136, 73, 50, 244, 238, 246, 160]
  size_toArray := rfl

/-- The payer's signature of `memoMessage`. -/
def memoSignature : SignatureBytes where
  toArray := List.toArray
    [29, 143, 222, 97, 232, 217, 133, 135, 29, 138, 248, 133, 44, 15, 90, 193, 221, 99, 214, 254,
      35, 166, 144, 120, 198, 71, 148, 66, 165, 82, 196, 248, 92, 55, 172, 199, 179, 232, 30, 58,
      172, 22, 55, 104, 68, 13, 223, 227, 73, 5, 138, 120, 18, 6, 227, 217, 23, 222, 217, 183, 194,
      38, 231, 1]
  size_toArray := rfl

/-- The text of the memo, which is also the data of a transfer of a million lamports. -/
def memoText : List UInt8 := [2, 0, 0, 0] ++ [64, 66, 15, 0, 0, 0, 0, 0]

/-- A legacy message that sends the memo, with the payer and the tip account as its accounts. -/
def memoMessage : List UInt8 :=
  [1, 0, 2, 3] ++ Store.demoPayer.toList ++ Store.demoTipAccount.toList ++ memoProgram.toList ++
    List.replicate 32 7 ++ [1, 2, 2, 0, 1, 12] ++ memoText

/-- The transaction on the wire. -/
def memoWire : List UInt8 := 1 :: memoSignature.toList ++ memoMessage

/-- The transaction, parsed. -/
def memoView : AddressedView where
  signature := memoSignature
  otherSignatures := []
  staticAccountKeys := [Store.demoPayer, Store.demoTipAccount, memoProgram]
  messageData := memoMessage
  instructions := [([0, 1], memoText)]
  programIdIndexes := [⟨2, by decide⟩]
  length_eq := rfl

/-- What the libraries do with this transaction. -/
def memoCode : TransactionCode where
  decodeBase64 _ := none
  maxTransactionSize := 4096
  v1Prefix := 129
  tryNewSanitized wire := if wire = memoWire then some memoView.toTransactionView else none
  verify signature pubkey message :=
    signature = memoSignature ∧ pubkey = Store.demoPayer ∧ message = memoMessage
  showSignature _ :=
    "bHFmHu2Ze6aJKuafxACorXToadVhgC5DBqa1eAmHygZ" ++
      "CjWzWUBuH97xSzgu16tSqJeLTBh6VLX6DnPLmho7x5b6"

/-- The memo is credited as a tip of a million lamports. -/
theorem not_creditsGenuine_memo :
    ¬ ∀ (code : TransactionCode) (wire : List UInt8) (tipAccounts loaded : List Pubkey)
      (view : AddressedView), code.tryNewSanitized wire = some view.toTransactionView →
      (∀ signed ∈ view.signatures.zip view.staticAccountKeys,
        code.verify signed.1 signed.2 view.messageData = true) →
      ∃ tip, code.parseTip wire tipAccounts = .ok tip ∧
        view.CreditsGenuine tipAccounts loaded tip.lamports := by
  intro hall
  have hparse : memoCode.tryNewSanitized memoWire = some memoView.toTransactionView := by
    dsimp only [memoCode]
    rw [if_pos rfl]
  have hsigned : ∀ signed ∈ memoView.signatures.zip memoView.staticAccountKeys,
      memoCode.verify signed.1 signed.2 memoView.messageData = true := by
    decide +kernel
  obtain ⟨tip, htip, hgenuine⟩ :=
    hall memoCode memoWire [Store.demoTipAccount] [] memoView hparse hsigned
  have hlamports : (memoCode.parseTip memoWire [Store.demoTipAccount]).map ParsedTip.lamports =
      .ok 1000000 := by
    decide +kernel
  rw [htip] at hlamports
  have hcredited : tip.lamports = 1000000 := Except.ok.inj hlamports
  have hmade := hgenuine.made
  rw [hcredited] at hmade
  revert hmade
  decide +kernel

end ShredTools.Postpack

import Mathlib.Data.List.Perm.Subperm
import ShredTools.Postpack.Sessions

/-!
# What tokens are worth

`sessions_safe` says it, whoever calls and in whichever order the calls make their steps: each token
was given for a challenge of its own, that was issued to the key whose signature came with it, and
nothing but these tokens opens a subscription.

What calls on their way hold is counted: a challenge that is outstanding, or was signed for and gave
no token yet, was issued (`pending_step`), and a text that is given away was drawn (`holds_step`).

The accounts are sums over the tables of the server, of what each challenge and each call is worth,
so that a step changes them by what it takes out and puts in.  `Server.Follows` is what the sessions
are after what was heard, and gives the exact answers; `Server.Signed` keeps that a call in the
middle has a signature behind it; `Server.Once` is about texts that are drawn, and the only part
that needs the clock and the nonce to behave.
-/

namespace ShredTools.Postpack.Gravity

open Audit (Pubkey stripPrefix)

/-! ### Challenges and tokens -/

/-- The challenges that were issued. -/
def issuedChallenges (heard : List Output) : List (Pubkey × String) :=
  heard.filterMap fun
    | .issued pubkey challenge => some (pubkey, challenge)
    | _ => none

/-- The access tokens that were granted, with the requests. -/
def grantedTokens (heard : List Output) : List (Pubkey × TokensRequest × String) :=
  heard.filterMap fun
    | .granted pubkey request access => some (pubkey, request, access)
    | _ => none

/-- The tokens that were answered. -/
def answeredTokens (heard : List Output) : List (String × String) :=
  heard.filterMap fun
    | .tokens access refresh => some (access, refresh)
    | _ => none

/-- What the keys were to sign. -/
def toBeSigned (code : SignatureCode) (heard : List Output) : List (Pubkey × String) :=
  (issuedChallenges heard).map fun i => (i.1, toSign code i.1 i.2)

/-- What the keys signed, for the tokens that were granted. -/
def grantedFor (heard : List Output) : List (Pubkey × String) :=
  (grantedTokens heard).map fun g => (g.1, g.2.1.challenge)

/-- The access tokens that were granted. -/
def accessTokens (heard : List Output) : List String := (grantedTokens heard).map fun g => g.2.2

/-- The access tokens that were answered. -/
def answeredAccess (heard : List Output) : List String := (answeredTokens heard).map Prod.fst

section Append

variable (heard more : List Output)

lemma issuedChallenges_append :
    issuedChallenges (heard ++ more) = issuedChallenges heard ++ issuedChallenges more :=
  List.filterMap_append

lemma grantedTokens_append :
    grantedTokens (heard ++ more) = grantedTokens heard ++ grantedTokens more :=
  List.filterMap_append

lemma answeredTokens_append :
    answeredTokens (heard ++ more) = answeredTokens heard ++ answeredTokens more :=
  List.filterMap_append

lemma toBeSigned_append (code : SignatureCode) :
    toBeSigned code (heard ++ more) = toBeSigned code heard ++ toBeSigned code more := by
  unfold toBeSigned
  rw [issuedChallenges_append, List.map_append]

lemma grantedFor_append : grantedFor (heard ++ more) = grantedFor heard ++ grantedFor more := by
  unfold grantedFor
  rw [grantedTokens_append, List.map_append]

lemma accessTokens_append :
    accessTokens (heard ++ more) = accessTokens heard ++ accessTokens more := by
  unfold accessTokens
  rw [grantedTokens_append, List.map_append]

lemma answeredAccess_append :
    answeredAccess (heard ++ more) = answeredAccess heard ++ answeredAccess more := by
  unfold answeredAccess
  rw [answeredTokens_append, List.map_append]

end Append

section Redeemed

variable (code : SignatureCode)

/-- What is signed for, in a request that passed the checks, counts once. -/
def Task.redeems (x : Pubkey × String) : Task → ℕ
  | .checked pubkey request | .accessDrawn pubkey request _ => [(pubkey, request.challenge)].count x
  | _ => 0

/-- An outstanding challenge counts once, as what is to be signed. -/
def outstanding (x : Pubkey × String) (pubkey : Pubkey) (challenge : String) : ℕ :=
  [(pubkey, toSign code pubkey challenge)].count x

/-- How often a text stands to be signed by a key, or was signed, and gave no token yet. -/
def Server.pending (x : Pubkey × String) (s : Server) : ℕ :=
  s.sessions.challenges.total (outstanding code x) + s.tasks.total fun _ => Task.redeems x

/-- The checks pass for the outstanding challenge only, with a signature. -/
lemma checkTokens_eq_ok_iff {pubkey : Pubkey} {request : TokensRequest}
    {outstanding : Option String} :
    checkTokens code pubkey request outstanding = .ok () ↔
      ∃ challenge, outstanding = some challenge ∧ request.challenge = toSign code pubkey challenge ∧
        ∃ signature, toArray? 64 request.signedChallenge = some signature ∧
          code.verify signature pubkey request.challenge.toUTF8 = true := by
  unfold checkTokens
  cases outstanding with
  | none => simp
  | some challenge =>
    dsimp only
    split_ifs with hmatch
    · simp [hmatch]
    · cases toArray? 64 request.signedChallenge with
      | none => simp
      | some signature =>
        dsimp only
        split_ifs with hverify
        · exact iff_of_true rfl ⟨challenge, rfl, not_not.mp hmatch, signature, rfl, hverify⟩
        · refine iff_of_false (fun h => by cases h) ?_
          rintro ⟨_, -, -, _, hsignature, hverified⟩
          cases hsignature
          exact hverify hverified

/-- A step grants a token for a challenge that it or an earlier one issued. -/
lemma pending_step {s : Server} {event : Event} {result : Server × List Output}
    (h : s.Effect code event result) (x : Pubkey × String) :
    result.1.pending code x + (grantedFor result.2).count x ≤
      s.pending code x + (toBeSigned code result.2).count x := by
  unfold Server.pending
  cases h with
  | idle => exact le_rfl
  | refused status => exact le_rfl
  | arrived task t first free =>
    have hsame := total_insert_of_first (f := Task.redeems x) free first (fun _ => rfl)
      fun _ _ => rfl
    exact Nat.add_le_add_left hsame.le _
  | authorized authorization => exact le_rfl
  | advanced task nanos t run here =>
    have hinsert := total_insert_of_lookup here (Task.redeems x)
    have herase := total_erase_of_lookup here (Task.redeems x)
    cases t with
    | challenge pubkey => exact Nat.add_le_add_left (hinsert _).le _
    -- the challenge issued takes the place of one that was still outstanding for the key
    | challengeDrawn pubkey challenge =>
      have hput := AList.total_insert_add (outstanding code x) s.sessions.challenges pubkey
        challenge
      change AList.total _ (s.sessions.challenges.insert pubkey challenge) +
        AList.total _ (s.tasks.erase task) + 0 ≤ _ + _ + outstanding code x pubkey challenge
      change AList.total _ (s.tasks.erase task) + 0 = _ at herase
      omega
    | tokens pubkey request =>
      have htake := AList.total_erase_add (outstanding code x) s.sessions.challenges pubkey
      change AList.total _ (s.tasks.erase task) + 0 = _ at herase
      have hmoved : (s.tasks.insert task (.checked pubkey request)).total
            (fun _ => Task.redeems x) =
          s.tasks.total (fun _ => Task.redeems x) + [(pubkey, request.challenge)].count x :=
        hinsert (.checked pubkey request)
      -- the challenge leaves the table whatever the check says, and the task takes it on if it
      -- passes
      cases hchecks : checkTokens code pubkey request (s.sessions.challenges.lookup pubkey) with
      | error status =>
        have hresult : s.advance code task nanos (.tokens pubkey request) =
            (⟨{ s.sessions with challenges := s.sessions.challenges.erase pubkey },
              s.tasks.erase task⟩, [.checked pubkey request (.error status)]) := by
          unfold Server.advance
          dsimp only
          rw [hchecks]
        rw [hresult]
        change AList.total _ (s.sessions.challenges.erase pubkey) +
          AList.total _ (s.tasks.erase task) + 0 ≤ _ + _ + 0
        omega
      | ok _ =>
        have hresult : s.advance code task nanos (.tokens pubkey request) =
            (⟨{ s.sessions with challenges := s.sessions.challenges.erase pubkey },
              s.tasks.insert task (.checked pubkey request)⟩,
              [.checked pubkey request (.ok ())]) := by
          unfold Server.advance
          dsimp only
          rw [hchecks]
        obtain ⟨challenge, hchallenge, hsigned, -⟩ := (checkTokens_eq_ok_iff code).mp hchecks
        rw [hresult]
        rw [hchallenge, Option.elim_some] at htake
        unfold outstanding at htake
        rw [← hsigned] at htake
        change AList.total _ (s.sessions.challenges.erase pubkey) +
          AList.total _ (s.tasks.insert task (.checked pubkey request)) + 0 ≤ _ + _ + 0
        unfold outstanding
        omega
    | checked pubkey request =>
      have hmoved := hinsert (.accessDrawn pubkey request (s.sessions.fresh nanos).1)
      change _ + [(pubkey, request.challenge)].count x = _ + [(pubkey, request.challenge)].count x
        at hmoved
      exact Nat.add_le_add_left (Nat.add_right_cancel hmoved).le _
    | accessDrawn pubkey request access =>
      have hmoved : (s.tasks.insert task (.granted access)).total (fun _ => Task.redeems x) +
          [(pubkey, request.challenge)].count x = s.tasks.total fun _ => Task.redeems x :=
        hinsert (.granted access)
      change _ + AList.total _ (s.tasks.insert task (.granted access)) +
        [(pubkey, request.challenge)].count x ≤ _ + _ + 0
      rw [Nat.add_assoc, hmoved]
      exact le_rfl
    | granted access => exact Nat.add_le_add_left herase.le _

/-- The signature of a request is one of the key. -/
def TokensRequest.SignedBy (pubkey : Pubkey) (request : TokensRequest) : Prop :=
  ∃ signature, toArray? 64 request.signedChallenge = some signature ∧
    code.verify signature pubkey request.challenge.toUTF8 = true

/-- A request that passed the checks is signed. -/
def Task.Signed : Task → Prop
  | .checked pubkey request | .accessDrawn pubkey request _ => request.SignedBy code pubkey
  | _ => True

/-- The requests that passed the checks are signed. -/
def Server.Signed (s : Server) : Prop := ∀ task t, s.tasks.lookup task = some t → t.Signed code

/-- A call that goes on leaves the others signed. -/
theorem Server.Signed.insert {s : Server} (h : s.Signed code) (t : Task) (ht : t.Signed code)
    (sessions : Sessions) (task : ℕ) : Server.Signed code ⟨sessions, s.tasks.insert task t⟩ := by
  intro task' t' hlookup
  by_cases htask : task' = task
  · rw [htask] at hlookup
    rw [AList.lookup_insert] at hlookup
    rwa [← Option.some.inj hlookup]
  · rw [AList.lookup_insert_ne htask] at hlookup
    exact h task' t' hlookup

/-- A call that is answered leaves the others signed. -/
theorem Server.Signed.erase {s : Server} (h : s.Signed code) (sessions : Sessions) (task : ℕ) :
    Server.Signed code ⟨sessions, s.tasks.erase task⟩ := by
  intro task' t' hlookup
  by_cases htask : task' = task
  · rw [htask, AList.lookup_erase] at hlookup
    cases hlookup
  · rw [AList.lookup_erase_ne htask] at hlookup
    exact h task' t' hlookup

/-- A step keeps the requests signed, and grants tokens for signed requests only. -/
theorem Server.Signed.step {s : Server} {event : Event} {result : Server × List Output}
    (h : s.Signed code) (heffect : s.Effect code event result) :
    result.1.Signed code ∧ ∀ g ∈ grantedTokens result.2, g.2.1.SignedBy code g.1 := by
  have hnone : ∀ g ∈ ([] : List (Pubkey × TokensRequest × String)), g.2.1.SignedBy code g.1 :=
    fun g hg => absurd hg List.not_mem_nil
  cases heffect with
  | idle => exact ⟨h, hnone⟩
  | refused status => exact ⟨h, hnone⟩
  | arrived task t first free =>
    have ht : t.Signed code := by cases t <;> trivial
    exact ⟨h.insert code t ht s.sessions task, hnone⟩
  | authorized authorization => exact ⟨h, hnone⟩
  | advanced task nanos t run here =>
    have ht := h task t here
    cases t with
    | challenge pubkey => exact ⟨h.insert code (.challengeDrawn _ _) trivial _ task, hnone⟩
    | challengeDrawn pubkey challenge => exact ⟨h.erase code _ task, hnone⟩
    | tokens pubkey request =>
      unfold Server.advance
      dsimp only
      cases hchecks : checkTokens code pubkey request (s.sessions.challenges.lookup pubkey) with
      | error status => exact ⟨h.erase code _ task, hnone⟩
      | ok _ =>
        obtain ⟨_, -, -, hsigned⟩ := (checkTokens_eq_ok_iff code).mp hchecks
        exact ⟨h.insert code (.checked _ _) hsigned _ task, hnone⟩
    | checked pubkey request => exact ⟨h.insert code (.accessDrawn _ _ _) ht _ task, hnone⟩
    | accessDrawn pubkey request access =>
      refine ⟨h.insert code (.granted _) trivial _ task, fun g hg => ?_⟩
      rw [List.mem_singleton.mp hg]
      exact ht
    | granted access => exact ⟨h.erase code _ task, hnone⟩

end Redeemed

/-! ### Texts -/

section Texts

variable (code : SignatureCode)

/-- The texts that were given away: challenges, access tokens and refresh tokens. -/
def texts (heard : List Output) : List String :=
  (issuedChallenges heard).map Prod.snd ++ accessTokens heard ++
    (answeredTokens heard).map Prod.snd

/-- A text that was drawn and not yet given away counts once. -/
def Task.holds (x : String) : Task → ℕ
  | .challengeDrawn _ text | .accessDrawn _ _ text => [text].count x
  | _ => 0

/-- The reading of the clock with which a step draws a text, if it draws one: a challenge, an access
token or a refresh token. -/
def Server.drawsAt (s : Server) : Event → Option ℕ
  | .run task nanos =>
    match s.tasks.lookup task with
    | some (.challenge _) | some (.checked _ _) | some (.granted _) => some nanos
    | _ => none
  | _ => none

/-- A step gives away what was drawn before it, or what it draws. -/
lemma holds_step {s : Server} {event : Event} {result : Server × List Output}
    (h : s.Effect code event result) :
    (result.1.sessions.nonce = s.sessions.nonce ∧
      ∀ x, result.1.tasks.total (fun _ => Task.holds x) + (texts result.2).count x ≤
        s.tasks.total fun _ => Task.holds x) ∨
    ∃ nanos, s.drawsAt event = some nanos ∧
      result.1.sessions.nonce = (s.sessions.nonce + 1) % 2 ^ 64 ∧
      ∀ x, result.1.tasks.total (fun _ => Task.holds x) + (texts result.2).count x ≤
        s.tasks.total (fun _ => Task.holds x) +
          [hexText nanos ++ hexText s.sessions.nonce].count x := by
  cases h with
  | idle => exact Or.inl ⟨rfl, fun _ => le_rfl⟩
  | refused status => exact Or.inl ⟨rfl, fun _ => le_rfl⟩
  | arrived task t first free =>
    exact Or.inl ⟨rfl, fun x => (total_insert_of_first free first (fun _ => rfl) fun _ _ => rfl).le⟩
  | authorized authorization => exact Or.inl ⟨rfl, fun _ => le_rfl⟩
  | advanced task nanos t run here =>
    have hinsert := fun x => total_insert_of_lookup here (Task.holds x)
    have herase := fun x => total_erase_of_lookup here (Task.holds x)
    cases t with
    | challenge pubkey =>
      exact Or.inr ⟨nanos, by rw [run, Server.drawsAt, here], rfl, fun x => (hinsert x _).le⟩
    | challengeDrawn pubkey challenge =>
      exact Or.inl ⟨rfl, fun x => (herase x).le⟩
    | tokens pubkey request =>
      refine Or.inl ⟨rfl, fun x => ?_⟩
      unfold Server.advance
      dsimp only
      cases checkTokens code pubkey request (s.sessions.challenges.lookup pubkey) with
      | error status => exact (herase x).le
      | ok _ => exact (hinsert x _).le
    | checked pubkey request =>
      exact Or.inr ⟨nanos, by rw [run, Server.drawsAt, here], rfl, fun x => (hinsert x _).le⟩
    | accessDrawn pubkey request access =>
      exact Or.inl ⟨rfl, fun x => (hinsert x _).le⟩
    | granted access =>
      exact Or.inr ⟨nanos, by rw [run, Server.drawsAt, here], rfl,
        fun x => Nat.add_le_add_right (herase x).le _⟩

/-- An access token that was granted and not yet answered counts once. -/
def Task.answers (x : String) : Task → ℕ
  | .granted access => [access].count x
  | _ => 0

/-- A step stores the tokens that it grants, and answers one that was granted before. -/
lemma tokens_step {s : Server} {event : Event} {result : Server × List Output}
    (h : s.Effect code event result) :
    result.1.sessions.tokens =
        s.sessions.tokens ∪ (accessTokens result.2).toFinset ∧
      ∀ x, result.1.tasks.total (fun _ => Task.answers x) +
          (answeredAccess result.2).count x ≤
        s.tasks.total (fun _ => Task.answers x) +
          (accessTokens result.2).count x := by
  have hsame : s.sessions.tokens = s.sessions.tokens ∪ ([] : List String).toFinset := by
    rw [List.toFinset_nil, Finset.union_empty]
  cases h with
  | idle => exact ⟨hsame, fun _ => le_rfl⟩
  | refused status => exact ⟨hsame, fun _ => le_rfl⟩
  | arrived task t first free =>
    exact ⟨hsame, fun x => (total_insert_of_first free first (fun _ => rfl) fun _ _ => rfl).le⟩
  | authorized authorization => exact ⟨hsame, fun _ => le_rfl⟩
  | advanced task nanos t run here =>
    have hinsert := fun x => total_insert_of_lookup here (Task.answers x)
    have herase := fun x => total_erase_of_lookup here (Task.answers x)
    cases t with
    | challenge pubkey => exact ⟨hsame, fun x => (hinsert x _).le⟩
    | challengeDrawn pubkey challenge => exact ⟨hsame, fun x => (herase x).le⟩
    | tokens pubkey request =>
      refine ⟨hsame, fun x => ?_⟩
      unfold Server.advance
      dsimp only
      cases checkTokens code pubkey request (s.sessions.challenges.lookup pubkey) with
      | error status => exact (herase x).le
      | ok _ => exact (hinsert x _).le
    | checked pubkey request => exact ⟨hsame, fun x => (hinsert x _).le⟩
    | accessDrawn pubkey request access =>
      refine ⟨?_, fun x => (hinsert x _).le⟩
      change insert access s.sessions.tokens = s.sessions.tokens ∪ [access].toFinset
      rw [List.toFinset_cons, List.toFinset_nil, Finset.union_insert, Finset.union_empty]
    | granted access => exact ⟨hsame, fun x => (herase x).le⟩

/-- The challenge that is outstanding for a key, after one more output. -/
def Output.outstanding (pubkey : Pubkey) (challenge : Option String) : Output → Option String
  | .issued key text => if key = pubkey then some text else challenge
  | .checked key _ _ => if key = pubkey then none else challenge
  | _ => challenge

/-- The challenge that is outstanding for a key: the last one issued to it, unless a request for
tokens of the key was checked since. -/
def outstandingOf (pubkey : Pubkey) (heard : List Output) : Option String :=
  heard.foldl (Output.outstanding pubkey) none

/-- What is heard of a call is right, in view of what was heard before. -/
def Output.Right (before : List Output) : Output → Prop
  | .checked pubkey request answer =>
    answer = .ok () ↔ ∃ challenge, outstandingOf pubkey before = some challenge ∧
      request.challenge = toSign code pubkey challenge ∧ request.SignedBy code pubkey
  | .granted pubkey request _ => request.SignedBy code pubkey
  | .authorized authorization answer =>
    answer = .ok () ↔ ∃ g ∈ grantedTokens before, authorization = some ("Bearer " ++ g.2.2)
  | _ => True

/-- The token after the prefix. -/
lemma stripPrefix_eq_some_iff {start text rest : String} :
    stripPrefix start text = some rest ↔ text = start ++ rest := by
  unfold stripPrefix
  split_ifs with hprefix
  · obtain ⟨tail, htail⟩ := List.isPrefixOf_iff_prefix.mp hprefix
    rw [← htail, List.drop_left, Option.some.injEq, ← @String.toList_inj text,
      ← String.toList_inj, String.toList_append, String.toList_ofList, ← htail]
    exact (List.append_right_inj _).symm
  · refine iff_of_false (fun h => by cases h) ?_
    rintro rfl
    rw [String.toList_append] at hprefix
    exact hprefix (List.isPrefixOf_iff_prefix.mpr (List.prefix_append _ _))

/-- A subscription is answered by the tokens there are. -/
lemma authorize_eq_ok_iff {s : Sessions} {authorization : Option String} :
    s.authorize authorization = .ok () ↔
      ∃ token ∈ s.tokens, authorization = some ("Bearer " ++ token) := by
  unfold Sessions.authorize
  cases hheader : authorization.bind (stripPrefix "Bearer ") with
  | none =>
    refine iff_of_false (fun h => by cases h) ?_
    rintro ⟨token, -, rfl⟩
    rw [Option.bind_some, stripPrefix_eq_some_iff.mpr rfl] at hheader
    cases hheader
  | some token =>
    obtain ⟨text, rfl, htoken⟩ := Option.bind_eq_some_iff.mp hheader
    have htext := stripPrefix_eq_some_iff.mp htoken
    dsimp only
    split_ifs with hmem
    · exact iff_of_true rfl ⟨token, hmem, congrArg some htext⟩
    · refine iff_of_false (fun h => by cases h) ?_
      rintro ⟨other, hother, heq⟩
      rw [Option.some.inj heq, stripPrefix_eq_some_iff.mpr rfl] at htoken
      exact hmem (Option.some.inj htoken ▸ hother)

/-- What the sessions are after what was heard. -/
structure Server.Follows (s : Server) (heard : List Output) : Prop where
  /-- The outstanding challenges. -/
  challenges : ∀ pubkey, s.sessions.challenges.lookup pubkey = outstandingOf pubkey heard
  /-- The tokens. -/
  tokens : s.sessions.tokens = (accessTokens heard).toFinset
  /-- The requests that passed the checks are signed. -/
  signed : s.Signed code

/-- A step leaves the challenge that is outstanding for each key. -/
lemma challenges_step {s : Server} {event : Event} {result : Server × List Output}
    (h : s.Effect code event result) {heard : List Output}
    (hbefore : ∀ pubkey, s.sessions.challenges.lookup pubkey = outstandingOf pubkey heard)
    (pubkey : Pubkey) :
    result.1.sessions.challenges.lookup pubkey = outstandingOf pubkey (heard ++ result.2) := by
  unfold outstandingOf at hbefore ⊢
  rw [List.foldl_append, ← hbefore]
  cases h with
  | idle => rfl
  | refused status => rfl
  | arrived task t first free => rfl
  | authorized authorization => rfl
  | advanced task nanos t run here =>
    cases t with
    | challenge key => rfl
    | challengeDrawn key challenge =>
      change (s.sessions.challenges.insert key challenge).lookup pubkey =
        if key = pubkey then some challenge else s.sessions.challenges.lookup pubkey
      by_cases hkey : key = pubkey
      · rw [if_pos hkey, hkey, AList.lookup_insert]
      · rw [if_neg hkey, AList.lookup_insert_ne (Ne.symm hkey)]
    | tokens key request =>
      change (s.sessions.challenges.erase key).lookup pubkey =
        if key = pubkey then none else s.sessions.challenges.lookup pubkey
      by_cases hkey : key = pubkey
      · rw [if_pos hkey, hkey, AList.lookup_erase]
      · rw [if_neg hkey, AList.lookup_erase_ne (Ne.symm hkey)]
    | checked key request => rfl
    | accessDrawn key request access => rfl
    | granted access => rfl

/-- What is heard of a step is right. -/
theorem Server.Follows.right {s : Server} {heard : List Output} (hfollows : s.Follows code heard)
    {event : Event} {result : Server × List Output} (h : s.Effect code event result) :
    result.2.Along fun before output => output.Right code (heard ++ before) := by
  cases h with
  | idle => exact List.along_nil _
  | refused status => exact List.along_singleton trivial
  | arrived task t first free => exact List.along_nil _
  | authorized authorization =>
    refine List.along_singleton ?_
    rw [List.append_nil]
    refine authorize_eq_ok_iff.trans ?_
    rw [hfollows.tokens]
    constructor
    · rintro ⟨token, htoken, hheader⟩
      obtain ⟨g, hg, rfl⟩ := List.mem_map.mp (List.mem_toFinset.mp htoken)
      exact ⟨g, hg, hheader⟩
    · rintro ⟨g, hg, hheader⟩
      exact ⟨g.2.2, List.mem_toFinset.mpr (List.mem_map_of_mem hg), hheader⟩
  | advanced task nanos t run here =>
    have ht := hfollows.signed task t here
    cases t with
    | challenge key => exact List.along_nil _
    | challengeDrawn key challenge => exact List.along_singleton trivial
    | tokens key request =>
      refine List.along_singleton ?_
      rw [List.append_nil]
      refine (checkTokens_eq_ok_iff code).trans ?_
      rw [hfollows.challenges]
      exact Iff.rfl
    | checked key request => exact List.along_nil _
    | accessDrawn key request access => exact List.along_singleton ht
    | granted access => exact List.along_singleton trivial

/-- A step keeps what is known. -/
theorem Server.Follows.step {s : Server} {heard : List Output} (hfollows : s.Follows code heard)
    {event : Event} {result : Server × List Output} (h : s.Effect code event result) :
    result.1.Follows code (heard ++ result.2) where
  challenges := challenges_step code h hfollows.challenges
  tokens := by
    rw [(tokens_step code h).1, hfollows.tokens, ← List.toFinset_append, accessTokens_append]
  signed := (hfollows.signed.step code h).1

/-! ### Runs -/

/-- What is heard of the calls in a run. -/
def heardIn (events : List Event) : List Output :=
  (Machine.outputs (Server.step code) Server.start events).flatten

/-- The server after a run. -/
def reached (events : List Event) : Server :=
  Machine.finalState (Server.step code) Server.start events

/-- The readings of the clock with which the steps of a run draw texts, from a server on. -/
def drawsFrom : Server → List Event → List ℕ
  | _, [] => []
  | s, event :: events => (s.drawsAt event).toList ++ drawsFrom (s.step code event).1 events

/-- The readings of the clock with which texts are drawn in a run. -/
def drawsIn (events : List Event) : List ℕ := drawsFrom code Server.start events

/-- One more step draws at most one more text. -/
lemma drawsIn_concat (events : List Event) (event : Event) :
    drawsIn code (events ++ [event]) =
      drawsIn code events ++ ((reached code events).drawsAt event).toList := by
  unfold drawsIn reached
  generalize Server.start = s
  induction events generalizing s with
  | nil => exact List.append_nil _
  | cons first events ih =>
    rw [List.cons_append, drawsFrom, drawsFrom, ih, List.append_assoc, Machine.finalState_cons]

/-- A property of the server and of what is heard that every step keeps. -/
theorem run_induction {P : List Event → Server → List Output → Prop} (start : P [] Server.start [])
    (next : ∀ events event s heard result, reached code events = s → P events s heard →
      s.Effect code event result → P (events ++ [event]) result.1 (heard ++ result.2))
    (events : List Event) : P events (reached code events) (heardIn code events) := by
  refine (Machine.run_induction (Server.step code)
    (P := fun events s outputs => reached code events = s ∧ P events s outputs.flatten)
    ⟨rfl, start⟩ ?_ events).2
  rintro events event s outputs ⟨rfl, h⟩
  rw [List.flatten_append, List.flatten_singleton]
  exact ⟨Machine.finalState_concat ..,
    next events event _ _ _ rfl h (Server.step_effect code _ event)⟩

/-- The sessions follow what is heard, and what is heard is right. -/
theorem follows_run (events : List Event) :
    (reached code events).Follows code (heardIn code events) ∧
      (heardIn code events).Along (Output.Right code) := by
  refine run_induction code (P := fun _ s heard => s.Follows code heard ∧
    heard.Along (Output.Right code)) ⟨⟨fun _ => rfl, rfl, ?_⟩, List.along_nil _⟩ ?_ events
  · intro task t hlookup
    cases hlookup
  · intro _ event s heard result _ ⟨hfollows, hright⟩ heffect
    exact ⟨hfollows.step code heffect, hright.append (hfollows.right code heffect)⟩

/-- Every token was granted for a challenge of its own. -/
lemma pending_run (events : List Event) (x : Pubkey × String) :
    (reached code events).pending code x + (grantedFor (heardIn code events)).count x ≤
      (toBeSigned code (heardIn code events)).count x := by
  refine run_induction code (P := fun _ s heard =>
    s.pending code x + (grantedFor heard).count x ≤ (toBeSigned code heard).count x)
    le_rfl ?_ events
  intro _ event s heard result _ h heffect
  have hstep := pending_step code heffect x
  rw [grantedFor_append, toBeSigned_append, List.count_append, List.count_append]
  omega

/-- Every token that is answered was granted. -/
lemma answers_run (events : List Event) (x : String) :
    (reached code events).tasks.total (fun _ => Task.answers x) +
        (answeredAccess (heardIn code events)).count x ≤
      (accessTokens (heardIn code events)).count x := by
  refine run_induction code (P := fun _ s heard =>
    s.tasks.total (fun _ => Task.answers x) + (answeredAccess heard).count x ≤
      (accessTokens heard).count x) le_rfl ?_ events
  intro _ event s heard result _ h heffect
  have hstep := (tokens_step code heffect).2 x
  rw [accessTokens_append, answeredAccess_append, List.count_append, List.count_append]
  omega

/-- The text was drawn with one of the first `n` nonces. -/
def Drawn (d n : ℕ) (x : String) : Prop :=
  ∃ nanos nonce, nonce < n ∧ (16 ^ d ≤ nanos ∧ nanos < 16 ^ (d + 1)) ∧
    x = hexText nanos ++ hexText nonce

/-- The next text was not drawn before. -/
lemma not_drawn {d n nanos : ℕ} (hlow : 16 ^ d ≤ nanos) (hhigh : nanos < 16 ^ (d + 1)) :
    ¬ Drawn d n (hexText nanos ++ hexText n) := by
  rintro ⟨nanos', nonce, hlt, ⟨hlow', hhigh'⟩, heq⟩
  have := (hexText_append_inj hlow hhigh hlow' hhigh' heq).2
  omega

/-- Texts are given away once, and only if they were drawn. -/
structure Server.Once (d n : ℕ) (s : Server) (heard : List Output) : Prop where
  /-- The nonce. -/
  nonce : s.sessions.nonce = n % 2 ^ 64
  /-- Each text once. -/
  once : ∀ x, s.tasks.total (fun _ => Task.holds x) + (texts heard).count x ≤ 1
  /-- Only those drawn. -/
  drawn : ∀ x, 0 < s.tasks.total (fun _ => Task.holds x) + (texts heard).count x → Drawn d n x

/-- The texts of two parts. -/
lemma count_texts_append (heard more : List Output) (x : String) :
    (texts (heard ++ more)).count x = (texts heard).count x + (texts more).count x := by
  unfold texts
  rw [issuedChallenges_append, accessTokens_append, answeredTokens_append]
  simp only [List.map_append, List.count_append]
  omega

/-- A step draws at most one text, which is new. -/
theorem Server.Once.step {d n : ℕ} {s : Server} {heard : List Output} (h : s.Once d n heard)
    {event : Event} (hn : n + (s.drawsAt event).toList.length ≤ 2 ^ 64)
    {result : Server × List Output} (heffect : s.Effect code event result)
    (hclock : ∀ nanos ∈ s.drawsAt event, 16 ^ d ≤ nanos ∧ nanos < 16 ^ (d + 1)) :
    ∃ n' ≤ n + (s.drawsAt event).toList.length, result.1.Once d n' (heard ++ result.2) := by
  rcases holds_step code heffect with ⟨hnonce, hholds⟩ | ⟨nanos, hdraws, hnonce, hholds⟩
  · refine ⟨n, Nat.le_add_right _ _, hnonce.trans h.nonce, fun x => ?_, fun x hx => h.drawn x ?_⟩
    · have := hholds x
      have := h.once x
      rw [count_texts_append]
      omega
    · have := hholds x
      rw [count_texts_append] at hx
      omega
  · obtain ⟨hlow, hhigh⟩ := hclock nanos hdraws
    rw [hdraws, Option.toList_some, List.length_singleton] at hn ⊢
    have hnow : s.sessions.nonce = n := h.nonce.trans (Nat.mod_eq_of_lt hn)
    rw [hnow] at hnonce hholds
    refine ⟨n + 1, le_rfl, hnonce, fun x => ?_, fun x hx => ?_⟩
    · have hstep := hholds x
      have hold := h.once x
      rw [count_texts_append]
      by_cases hx : hexText nanos ++ hexText n = x
      · have hzero : ¬ 0 < s.tasks.total (fun _ => Task.holds x) + (texts heard).count x :=
          fun hpos => not_drawn hlow hhigh (hx ▸ h.drawn x hpos)
        rw [hx, List.count_singleton_self] at hstep
        omega
      · rw [List.count_singleton, if_neg (by simpa using hx)] at hstep
        omega
    · have hstep := hholds x
      rw [count_texts_append] at hx
      by_cases hnew : hexText nanos ++ hexText n = x
      · exact ⟨nanos, n, n.lt_succ_self, ⟨hlow, hhigh⟩, hnew.symm⟩
      · rw [List.count_singleton, if_neg (by simpa using hnew)] at hstep
        obtain ⟨nanos', nonce, hlt, hrange, heq⟩ := h.drawn x (by omega)
        exact ⟨nanos', nonce, by omega, hrange, heq⟩

/-- In a run each text is given away once. -/
lemma once_run {d : ℕ} {events : List Event}
    (hclock : ∀ nanos ∈ drawsIn code events, 16 ^ d ≤ nanos ∧ nanos < 16 ^ (d + 1))
    (hfew : (drawsIn code events).length ≤ 2 ^ 64) :
    ∃ n ≤ (drawsIn code events).length, (reached code events).Once d n (heardIn code events) := by
  refine run_induction code (P := fun events s heard =>
    (∀ nanos ∈ drawsIn code events, 16 ^ d ≤ nanos ∧ nanos < 16 ^ (d + 1)) →
      (drawsIn code events).length ≤ 2 ^ 64 →
      ∃ n ≤ (drawsIn code events).length, s.Once d n heard) ?_ ?_ events hclock hfew
  · intro _ _
    refine ⟨0, le_rfl, rfl, fun _ => Nat.zero_le 1, fun x hx => ?_⟩
    exact absurd hx (lt_irrefl 0)
  · rintro events event s heard result rfl ih heffect hclock hfew
    rw [drawsIn_concat] at hclock hfew ⊢
    rw [List.length_append] at hfew ⊢
    obtain ⟨n, hn, honce⟩ := ih
      (fun nanos hmem => hclock nanos (List.mem_append_left _ hmem)) (by omega)
    obtain ⟨n', hn', honce'⟩ := honce.step code (by omega) heffect fun nanos hnanos =>
      hclock nanos (List.mem_append_right _ (Option.mem_toList.mpr hnanos))
    exact ⟨n', by omega, honce'⟩

/-- **Sessions are safe.**  Whatever is called, and in whichever order the calls make their steps:
what is checked passes exactly if the last challenge issued to the key, with nothing checked for the
key since, came back signed by the key; a subscription opens exactly with a token that was granted
before; and tokens are granted for signed challenges, for different ones each.  If the clock shows
as many digits whenever a text is drawn, and the nonce does not wrap around, no two texts given away
are the same: so a challenge or a refresh token opens no subscription. -/
theorem sessions_safe (events : List Event) :
    (heardIn code events).Along (Output.Right code) ∧
      (grantedFor (heardIn code events)).Subperm (toBeSigned code (heardIn code events)) ∧
      (answeredAccess (heardIn code events)).Subperm (accessTokens (heardIn code events)) ∧
      ∀ d, (∀ nanos ∈ drawsIn code events, 16 ^ d ≤ nanos ∧ nanos < 16 ^ (d + 1)) →
        (drawsIn code events).length ≤ 2 ^ 64 → (texts (heardIn code events)).Nodup := by
  refine ⟨(follows_run code events).2, List.subperm_iff_count.mpr fun x => ?_,
    List.subperm_iff_count.mpr fun x => ?_, fun d hclock hfew =>
      List.nodup_iff_count_le_one.mpr fun x => ?_⟩
  · have hle := pending_run code events x
    rw [lawful_beq_subsingleton instBEqProd (instBEqOfDecidableEq (α := Pubkey × String))] at hle
    omega
  · have := answers_run code events x
    omega
  · obtain ⟨n, -, honce⟩ := once_run code hclock hfew
    have := honce.once x
    omega

end Texts

/-- Keys that are shown as a letter, and signatures that all verify. -/
def plainCode : SignatureCode where
  display _ := "k"
  verify _ _ _ := true

/-- A client gets a challenge, signs it, gets a token and subscribes. -/
def exchange : List Event :=
  let pubkey := List.replicate 32 0
  let challenge := "k-10000000000000000"
  [.generateAuthChallenge 0 pubkey, .run 0 (16 ^ 15), .run 0 (16 ^ 15),
    .generateAuthTokens 1 ⟨challenge, pubkey, List.replicate 64 0⟩, .run 1 (16 ^ 15),
    .run 1 (16 ^ 15), .run 1 (16 ^ 15), .run 1 (16 ^ 15),
    .subscribe (some "Bearer 10000000000000001")]

/-- The client is given three texts, all different, and one of them opens the subscription. -/
theorem sessions_safe_exchange :
    (texts (heardIn plainCode exchange)).Nodup ∧
      texts (heardIn plainCode exchange) =
        ["10000000000000000", "10000000000000001", "10000000000000002"] ∧
      (heardIn plainCode exchange).getLast?.map (fun output =>
        match output with
        | .authorized _ (.ok ()) => true
        | _ => false) = some true := by
  have hdraws : drawsIn plainCode exchange = [16 ^ 15, 16 ^ 15, 16 ^ 15] := by decide +kernel
  refine ⟨(sessions_safe plainCode exchange).2.2.2 15 ?_ ?_, by decide +kernel, by decide +kernel⟩
  · rw [hdraws]
    decide
  · rw [hdraws]
    decide

end ShredTools.Postpack.Gravity

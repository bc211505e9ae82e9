import ShredTools.Audit.Verify

/-!
# Chunks and single packets

What `verify_chunk` says of a packet is described without its tables: the signature verdict is that
of the first packet of the chunk with the same signature and root (`verifyChunk_shreds`).  Hence
packets verified in chunks and packets verified alone get the same answers exactly when in every
chunk the packets that share signature and root share the answer too, each under its own leader.

`AnswersShared` is that condition, on the packets of a chunk alone.  The loop over a chunk is
followed by an invariant on its variables (`LoopInvariant`), with the triples seen so far in one
table and the packets that wait for them in another; `settle_shreds` then fills the verdicts in.
That a batch verifies exactly when each of its signatures does is assumed of the library, as its
documentation says.  The example has two leaders and one signature.
-/

namespace ShredTools.Audit

variable (lib : VerifyLibrary) (schedule : LeaderSchedule) (shredVersion : Option ℕ)

/-- `verify_chunk` on one chunk after the other, with one set of counters. -/
def verifyChunks : VerifyStats → List (List Packet) → VerifyStats × List VerifiedShred
  | stats, [] => (stats, [])
  | stats, chunk :: chunks =>
    let (stats, shreds) := verifyChunk lib chunk schedule shredVersion stats
    let (stats, later) := verifyChunks stats chunks
    (stats, shreds ++ later)

/-- A shred without its place in the chunk. -/
def VerifiedShred.unindexed (s : VerifiedShred) : VerifiedShred := { s with packetIndex := 0 }

/-- What a packet parses to. -/
def parsedOf (p : Packet) : Option Parsed := (inspect lib schedule shredVersion 0 p).toOption

/-- What there is to check for a packet: its own signature and root, and the leader of its slot. -/
def checkOf (p : Packet) : Option Triple :=
  (parsedOf lib schedule shredVersion p).bind Parsed.triple

/-- Chunks and single packets agree: the same shreds, but for their places, and every verdict is
that of the packet's own signature over its own root under the leader of its own slot. -/
structure Independent (stats : VerifyStats) (chunks : List (List Packet)) : Prop where
  /-- The shreds are those of the packets verified alone. -/
  same : (verifyChunks lib schedule shredVersion stats chunks).2.map VerifiedShred.unindexed =
    (verifyChunks lib schedule shredVersion stats (chunks.flatten.map fun p => [p])).2.map
      VerifiedShred.unindexed
  /-- The verdicts are the packets' own. -/
  own : (verifyChunks lib schedule shredVersion stats chunks).2.map VerifiedShred.sigOk =
    (chunks.flatten.filterMap (parsedOf lib schedule shredVersion)).map
      fun parsed => parsed.triple.map lib.verifyOne

/-- The first triple with the signature and root of another. -/
def firstLike (triples : List Triple) (t : Triple) : Option Triple :=
  triples.find? fun other => other.sig = t.sig ∧ other.root = t.root

/-- In every chunk, a packet gets the same answer under its own leader as under the leader of the
first packet of the chunk with its signature and root. -/
def AnswersShared (chunks : List (List Packet)) : Prop :=
  ∀ chunk ∈ chunks, ∀ p ∈ chunk, ∀ t, checkOf lib schedule shredVersion p = some t →
    ∀ first, firstLike (chunk.filterMap (checkOf lib schedule shredVersion)) t = some first →
      lib.verifyOne first = lib.verifyOne t

/-! ### One packet -/

variable {lib schedule shredVersion}

/-- The place of a packet in its chunk is only noted. -/
lemma inspect_toOption (i : ℕ) (p : Packet) :
    (inspect lib schedule shredVersion i p).toOption =
      (parsedOf lib schedule shredVersion p).map fun parsed =>
        { parsed with shred := { parsed.shred with packetIndex := i } } := by
  unfold parsedOf inspect
  split
  · rfl
  · split
    · rfl
    · dsimp only
      split
      · rfl
      · split
        · rfl
        · split
          · split <;> rfl
          · rfl

/-! ### The triples -/

/-- The history of an interner of triples. -/
def tripleEntries (triples : List Triple) : List ((List UInt8 × Hash) × Triple) :=
  triples.map fun t => ((t.sig, t.root), t)

/-- The first triple with a signature and root is the first entry of their key. -/
lemma first_tripleEntries (triples : List Triple) (t : Triple) :
    Interner.first (tripleEntries triples) (t.sig, t.root) = firstLike triples t := by
  induction triples with
  | nil => rfl
  | cons other triples ih =>
    unfold Interner.first tripleEntries firstLike at ih ⊢
    rw [List.map_cons, List.find?_cons, List.find?_cons]
    by_cases hkey : other.sig = t.sig ∧ other.root = t.root
    · simp [hkey]
    · have hne : ¬ (other.sig, other.root) = (t.sig, t.root) := by
        rw [Prod.mk.injEq]
        exact hkey
      rw [decide_eq_false hne, decide_eq_false hkey]
      exact ih

/-- The verdicts are those of the triples one by one, however they are reached. -/
lemma verifyTriples_verdicts
    (hbatch : ∀ triples, lib.verifyBatch triples = triples.all lib.verifyOne)
    (triples : List Triple) (stats : VerifyStats) :
    (verifyTriples lib triples stats).2 = triples.map lib.verifyOne := by
  unfold verifyTriples
  dsimp only
  split_ifs with hfew hkeys hall
  · rfl
  · rfl
  · rw [hbatch] at hall
    have htrue : ∀ t ∈ triples, lib.verifyOne t = true := List.all_eq_true.mp hall
    rw [List.map_congr_left htrue, List.map_const']
  · rfl

/-- Every shred gets the verdict of its triple. -/
theorem settle_shreds (verdicts : List Bool) (stats : VerifyStats)
    (pending : List (VerifiedShred × Option ℕ)) :
    (settle verdicts stats pending).2 = pending.map fun entry =>
      entry.1.withVerdict (entry.2.map fun i => verdicts.getD i false) := by
  induction pending generalizing stats with
  | nil => rfl
  | cons entry pending ih => exact congrArg (List.cons _) (ih _)

/-! ### The loop -/

/-- A shred of the loop with the triple that its index leads to. -/
def resolved (triples : List Triple) (entry : VerifiedShred × Option ℕ) :
    VerifiedShred × Option Triple :=
  (entry.1, entry.2.bind fun i => triples[i]?)

/-- A parsed packet with the first triple like its own. -/
def expected (triples : List Triple) (parsed : Parsed) : VerifiedShred × Option Triple :=
  (parsed.shred, parsed.triple.bind (firstLike triples))

/-- The variables of the loop after some packets, given what these parsed to. -/
structure LoopInvariant (done : List Parsed) (st : ChunkState) : Prop where
  /-- The triples are those of the packets so far. -/
  represents : st.triples.Represents (tripleEntries (done.filterMap Parsed.triple))
  /-- Indices lie inside the array. -/
  bounded : ∀ entry ∈ st.pending, ∀ i, entry.2 = some i → i < st.triples.values.length
  /-- Every shred waits for the first triple like its own. -/
  pending : st.pending.map (resolved st.triples.values) =
    done.map (expected (done.filterMap Parsed.triple))

/-- The first triple like a triple of the list stays the first. -/
lemma firstLike_append {triples : List Triple} {t : Triple} (h : t ∈ triples)
    (more : List Triple) : firstLike (triples ++ more) t = firstLike triples t := by
  have hmem : ((t.sig, t.root), t) ∈ tripleEntries triples := List.mem_map.mpr ⟨t, h, rfl⟩
  rw [← first_tripleEntries, ← first_tripleEntries, tripleEntries, List.map_append]
  exact Interner.first_append_of_mem hmem _

/-- A packet that does not parse changes the counters only. -/
theorem push_of_error (st : ChunkState) {packet : Packet × ℕ} {reject : Reject}
    (h : inspect lib schedule shredVersion packet.2 packet.1 = .error reject) :
    (st.push lib schedule shredVersion packet).pending = st.pending ∧
      (st.push lib schedule shredVersion packet).triples = st.triples := by
  unfold ChunkState.push
  rw [h]
  exact ⟨rfl, rfl⟩

/-- A packet that parses waits for its triple. -/
theorem push_of_ok (st : ChunkState) {packet : Packet × ℕ} {parsed : Parsed}
    (h : inspect lib schedule shredVersion packet.2 packet.1 = .ok parsed) :
    (st.push lib schedule shredVersion packet).pending =
        st.pending ++ [(parsed.shred, (ChunkState.internTriple st.triples parsed.triple).2)] ∧
      (st.push lib schedule shredVersion packet).triples =
        (ChunkState.internTriple st.triples parsed.triple).1 := by
  unfold ChunkState.push
  rw [h]
  exact ⟨rfl, rfl⟩

/-- A packet without anything to check keeps the invariant. -/
lemma LoopInvariant.push_unchecked {done : List Parsed} {st st' : ChunkState}
    (h : LoopInvariant done st) {parsed : Parsed} (htriple : parsed.triple = none)
    (hpending : st'.pending = st.pending ++ [(parsed.shred, none)])
    (htriples : st'.triples = st.triples) : LoopInvariant (done ++ [parsed]) st' := by
  have hchecks : (done ++ [parsed]).filterMap Parsed.triple = done.filterMap Parsed.triple := by
    rw [List.filterMap_append, List.filterMap_cons_none htriple, List.filterMap_nil,
      List.append_nil]
  refine ⟨?_, ?_, ?_⟩
  · rw [hchecks, htriples]
    exact h.represents
  · intro entry hentry i hi
    rw [hpending, List.mem_append, List.mem_singleton] at hentry
    rw [htriples]
    rcases hentry with hold | rfl
    · exact h.bounded entry hold i hi
    · cases hi
  · rw [hchecks, hpending, htriples, List.map_append, List.map_append]
    have hlast : expected (done.filterMap Parsed.triple) parsed = (parsed.shred, none) := by
      rw [expected, htriple]
      rfl
    rw [List.map_singleton, List.map_singleton, hlast]
    exact congrArg (· ++ [(parsed.shred, none)]) h.pending

/-- One more triple changes nothing for the packets before. -/
lemma map_expected_append (done : List Parsed) (more : List Triple) :
    done.map (expected (done.filterMap Parsed.triple ++ more)) =
      done.map (expected (done.filterMap Parsed.triple)) := by
  refine List.map_congr_left fun other hother => ?_
  unfold expected
  cases htriple : other.triple with
  | none => rfl
  | some own =>
    rw [Option.bind_some, Option.bind_some, firstLike_append]
    exact List.mem_filterMap.mpr ⟨other, hother, htriple⟩

/-- Interning one more triple does not change where the indices lead that were given out before. -/
lemma LoopInvariant.map_resolved_intern {done : List Parsed} {st : ChunkState}
    (h : LoopInvariant done st) (t : Triple) :
    st.pending.map (resolved (st.triples.intern (t.sig, t.root) t).1.values) =
      st.pending.map (resolved st.triples.values) := by
  refine List.map_congr_left fun entry hentry => ?_
  unfold resolved
  cases hkey : entry.2 with
  | none => rfl
  | some i =>
    have hstable := Interner.getElem?_intern (h.bounded entry hentry i hkey) (t.sig, t.root) t
    rw [Option.bind_some, Option.bind_some]
    exact congrArg (Prod.mk entry.1) hstable

/-- A packet with something to check keeps the invariant. -/
lemma LoopInvariant.push_checked {done : List Parsed} {st st' : ChunkState}
    (h : LoopInvariant done st) {parsed : Parsed} {t : Triple} (htriple : parsed.triple = some t)
    (hpending : st'.pending =
      st.pending ++ [(parsed.shred, some (st.triples.intern (t.sig, t.root) t).2)])
    (htriples : st'.triples = (st.triples.intern (t.sig, t.root) t).1) :
    LoopInvariant (done ++ [parsed]) st' := by
  have hchecks : (done ++ [parsed]).filterMap Parsed.triple =
      done.filterMap Parsed.triple ++ [t] := by
    rw [List.filterMap_append, List.filterMap_cons_some htriple, List.filterMap_nil]
  have hentries : tripleEntries (done.filterMap Parsed.triple ++ [t]) =
      tripleEntries (done.filterMap Parsed.triple) ++ [((t.sig, t.root), t)] :=
    List.map_append
  have hnew := h.represents.getElem?_index (t.sig, t.root) t
  rw [← hentries, first_tripleEntries] at hnew
  obtain ⟨-, -, hindex, more, hmore⟩ := st.triples.intern_spec (t.sig, t.root) t
  refine ⟨?_, ?_, ?_⟩
  · rw [hchecks, htriples, hentries]
    exact h.represents.intern (t.sig, t.root) t
  · intro entry hentry i hi
    rw [hpending, List.mem_append, List.mem_singleton] at hentry
    rw [htriples]
    rcases hentry with hold | rfl
    · have hlt := h.bounded entry hold i hi
      rw [hmore, List.length_append]
      exact Nat.lt_add_right _ hlt
    · cases hi
      exact (st.triples.intern (t.sig, t.root) t).1.bounded _ _ hindex
  · rw [hchecks, hpending, htriples, List.map_append, List.map_append, List.map_singleton,
      List.map_singleton, h.map_resolved_intern t, h.pending, map_expected_append]
    refine congrArg (fun x => done.map (expected (done.filterMap Parsed.triple)) ++ [x]) ?_
    unfold resolved expected
    rw [htriple, Option.bind_some]
    exact congrArg (Prod.mk parsed.shred) hnew

/-- One packet keeps the invariant. -/
theorem LoopInvariant.push {done : List Parsed} {st : ChunkState} (h : LoopInvariant done st)
    (packet : Packet × ℕ) :
    LoopInvariant
      (done ++ (inspect lib schedule shredVersion packet.2 packet.1).toOption.toList)
      (st.push lib schedule shredVersion packet) := by
  cases hinspect : inspect lib schedule shredVersion packet.2 packet.1 with
  | error reject =>
    obtain ⟨hpending, htriples⟩ := push_of_error st hinspect
    have hdone : done ++ (Except.error reject : Except Reject Parsed).toOption.toList = done :=
      List.append_nil _
    rw [hdone]
    refine ⟨?_, ?_, ?_⟩
    · rw [htriples]
      exact h.represents
    · rw [hpending, htriples]
      exact h.bounded
    · rw [hpending, htriples]
      exact h.pending
  | ok parsed =>
    obtain ⟨hpending, htriples⟩ := push_of_ok st hinspect
    have hdone : (Except.ok parsed : Except Reject Parsed).toOption.toList = [parsed] := rfl
    rw [hdone]
    cases htriple : parsed.triple with
    | none =>
      rw [htriple] at hpending htriples
      exact h.push_unchecked htriple hpending htriples
    | some t =>
      rw [htriple] at hpending htriples
      exact h.push_checked htriple hpending htriples

/-- What some packets of a chunk parse to, with their places. -/
def parsedAll (lib : VerifyLibrary) (schedule : LeaderSchedule) (shredVersion : Option ℕ)
    (packets : List (Packet × ℕ)) : List Parsed :=
  packets.filterMap fun packet => (inspect lib schedule shredVersion packet.2 packet.1).toOption

variable (lib schedule shredVersion) in
/-- The loop keeps the invariant. -/
theorem loopInvariant_foldl (stats : VerifyStats) (packets : List (Packet × ℕ)) :
    LoopInvariant (parsedAll lib schedule shredVersion packets)
      (packets.foldl (ChunkState.push lib schedule shredVersion)
        ⟨stats, [], Interner.empty⟩) := by
  induction packets using List.reverseRecOn with
  | nil =>
    refine ⟨Interner.represents_empty, ?_, rfl⟩
    intro entry hentry
    simp at hentry
  | append_singleton packets packet ih =>
    have hparsed : parsedAll lib schedule shredVersion (packets ++ [packet]) =
        parsedAll lib schedule shredVersion packets ++
          (inspect lib schedule shredVersion packet.2 packet.1).toOption.toList := by
      unfold parsedAll
      rw [List.filterMap_append]
      cases hinspect : (inspect lib schedule shredVersion packet.2 packet.1).toOption <;>
        simp [hinspect]
    rw [hparsed, List.foldl_append, List.foldl_cons, List.foldl_nil]
    exact ih.push packet

/-! ### A chunk -/

/-- A parsed packet with the verdict of the first of some triples like its own. -/
def Parsed.judged (lib : VerifyLibrary) (triples : List Triple) (parsed : Parsed) :
    VerifiedShred :=
  parsed.shred.withVerdict ((parsed.triple.bind (firstLike triples)).map lib.verifyOne)

/-- What a chunk gives: each packet that parses, with the verdict of the first packet of the chunk
with its signature and root. -/
lemma verifyChunk_shreds
    (hbatch : ∀ triples, lib.verifyBatch triples = triples.all lib.verifyOne)
    (packets : List Packet) (stats : VerifyStats) :
    (verifyChunk lib packets schedule shredVersion stats).2 =
      (parsedAll lib schedule shredVersion packets.zipIdx).map
        (Parsed.judged lib ((parsedAll lib schedule shredVersion packets.zipIdx).filterMap
          Parsed.triple)) := by
  have h := loopInvariant_foldl lib schedule shredVersion stats packets.zipIdx
  unfold verifyChunk
  dsimp only
  rw [settle_shreds, verifyTriples_verdicts hbatch]
  generalize packets.zipIdx.foldl (ChunkState.push lib schedule shredVersion)
    ⟨stats, [], Interner.empty⟩ = st at h ⊢
  generalize parsedAll lib schedule shredVersion packets.zipIdx = done at h ⊢
  -- a verdict read at an index inside the array is that of the triple at the index
  have hread : st.pending.map (fun entry => entry.1.withVerdict
      (entry.2.map fun i => (st.triples.values.map lib.verifyOne).getD i false)) =
      (st.pending.map (resolved st.triples.values)).map fun entry =>
        entry.1.withVerdict (entry.2.map lib.verifyOne) := by
    rw [List.map_map]
    refine List.map_congr_left fun entry hentry => ?_
    refine congrArg entry.1.withVerdict ?_
    unfold resolved
    cases hkey : entry.2 with
    | none => rfl
    | some i =>
      have hlt := h.bounded entry hentry i hkey
      simp [List.getElem?_eq_getElem hlt]
  rw [hread, h.pending, List.map_map]
  rfl

/-- What is read off the parsed packets of a chunk, but not off their places, is read off the
packets. -/
lemma filterMap_parsedAll (packets : List Packet) {β : Type*} {f : Parsed → Option β}
    (hf : ∀ parsed i, f { parsed with shred := { parsed.shred with packetIndex := i } } =
      f parsed) :
    (parsedAll lib schedule shredVersion packets.zipIdx).filterMap f =
      packets.filterMap fun p => (parsedOf lib schedule shredVersion p).bind f := by
  have hone : ∀ packet : Packet × ℕ,
      (inspect lib schedule shredVersion packet.2 packet.1).toOption.bind f =
        (parsedOf lib schedule shredVersion packet.1).bind f := by
    intro packet
    rw [inspect_toOption]
    cases parsedOf lib schedule shredVersion packet.1 with
    | none => rfl
    | some parsed => exact hf parsed packet.2
  have hfst : packets.zipIdx.map Prod.fst = packets := List.zipIdx_map_fst 0 packets
  rw [parsedAll, List.filterMap_filterMap, List.filterMap_congr fun packet _ => hone packet]
  conv_rhs => rw [← hfst, List.filterMap_map]
  rfl

variable (lib schedule shredVersion)

/-- A packet with the verdict of the first of some triples like its own, without its place. -/
def judgedOf (triples : List Triple) (p : Packet) : Option VerifiedShred :=
  (parsedOf lib schedule shredVersion p).map fun parsed => (parsed.judged lib triples).unindexed

/-- The packets of a chunk with their verdicts, without their places. -/
def judgedChunk (chunk : List Packet) : List VerifiedShred :=
  chunk.filterMap (judgedOf lib schedule shredVersion
    (chunk.filterMap (checkOf lib schedule shredVersion)))

variable {lib schedule shredVersion}

/-- What chunks give, without the places. -/
lemma verifyChunks_unindexed
    (hbatch : ∀ triples, lib.verifyBatch triples = triples.all lib.verifyOne)
    (stats : VerifyStats) (chunks : List (List Packet)) :
    (verifyChunks lib schedule shredVersion stats chunks).2.map VerifiedShred.unindexed =
      chunks.flatMap (judgedChunk lib schedule shredVersion) := by
  induction chunks generalizing stats with
  | nil => rfl
  | cons chunk chunks ih =>
    have hchecks : (parsedAll lib schedule shredVersion chunk.zipIdx).filterMap Parsed.triple =
        chunk.filterMap (checkOf lib schedule shredVersion) :=
      filterMap_parsedAll chunk fun _ _ => rfl
    have hchunk : (verifyChunk lib chunk schedule shredVersion stats).2.map
        VerifiedShred.unindexed = judgedChunk lib schedule shredVersion chunk := by
      rw [verifyChunk_shreds hbatch, List.map_map, hchecks, ← List.filterMap_eq_map,
        filterMap_parsedAll]
      · unfold judgedChunk
        refine List.filterMap_congr fun p _ => ?_
        unfold judgedOf
        cases parsedOf lib schedule shredVersion p <;> rfl
      · intro parsed i
        rfl
    rw [List.flatMap_cons, ← hchunk, ← ih, ← List.map_append]
    rfl

/-- A packet verified alone has its own verdict. -/
lemma judgedChunk_singleton (p : Packet) :
    judgedChunk lib schedule shredVersion [p] =
      ((parsedOf lib schedule shredVersion p).map fun parsed =>
        (parsed.shred.withVerdict (parsed.triple.map lib.verifyOne)).unindexed).toList := by
  unfold judgedChunk judgedOf checkOf
  cases hparsed : parsedOf lib schedule shredVersion p with
  | none => simp [hparsed]
  | some parsed =>
    cases htriple : parsed.triple with
    | none => simp [hparsed, htriple, Parsed.judged]
    | some t => simp [hparsed, htriple, Parsed.judged, firstLike]

/-- Of two ways to pick from a list that pick the same elements, the picks agree exactly when they
agree at every element. -/
lemma filterMap_eq_filterMap_iff {α β : Type*} {f g : α → Option β} {l : List α}
    (h : ∀ a ∈ l, (f a).isSome = (g a).isSome) :
    l.filterMap f = l.filterMap g ↔ ∀ a ∈ l, f a = g a := by
  induction l with
  | nil => simp
  | cons a l ih =>
    have ha := h a List.mem_cons_self
    have hl := ih fun b hb => h b (List.mem_cons_of_mem a hb)
    rw [List.forall_mem_cons, ← hl]
    cases hf : f a with
    | none =>
      rw [hf] at ha
      have hg : g a = none := Option.isSome_eq_false_iff.mp ha.symm |> Option.isNone_iff_eq_none.mp
      rw [List.filterMap_cons_none hf, List.filterMap_cons_none hg, hg]
      simp
    | some b =>
      rw [hf] at ha
      obtain ⟨c, hg⟩ := Option.isSome_iff_exists.mp ha.symm
      rw [List.filterMap_cons_some hf, List.filterMap_cons_some hg, hg, List.cons.injEq,
        Option.some.injEq]

/-- A packet has its own verdict in its chunk when the first packet with its signature and root has
the same answer. -/
lemma judgedOf_eq_own_iff {chunk : List Packet} {p : Packet} (hp : p ∈ chunk) :
    judgedOf lib schedule shredVersion
        (chunk.filterMap (checkOf lib schedule shredVersion)) p =
        (parsedOf lib schedule shredVersion p).map (fun parsed =>
          (parsed.shred.withVerdict (parsed.triple.map lib.verifyOne)).unindexed) ↔
      ∀ t, checkOf lib schedule shredVersion p = some t →
        ∀ first, firstLike (chunk.filterMap (checkOf lib schedule shredVersion)) t = some first →
          lib.verifyOne first = lib.verifyOne t := by
  unfold judgedOf
  cases hparsed : parsedOf lib schedule shredVersion p with
  | none => simp [checkOf, hparsed]
  | some parsed =>
    have hcheck : checkOf lib schedule shredVersion p = parsed.triple := by
      rw [checkOf, hparsed, Option.bind_some]
    have hverdict : ∀ v v' : Option Bool, (parsed.shred.withVerdict v).unindexed =
        (parsed.shred.withVerdict v').unindexed ↔ v = v' := by
      intro v v'
      constructor
      · exact congrArg VerifiedShred.sigOk
      · exact congrArg fun v => (parsed.shred.withVerdict v).unindexed
    rw [Option.map_some, Option.map_some, Option.some.injEq, Parsed.judged, hverdict, hcheck]
    cases htriple : parsed.triple with
    | none => simp
    | some t =>
      have hmem : t ∈ chunk.filterMap (checkOf lib schedule shredVersion) :=
        List.mem_filterMap.mpr ⟨p, hp, hcheck.trans htriple⟩
      obtain ⟨first, hfirst⟩ : ∃ first,
          firstLike (chunk.filterMap (checkOf lib schedule shredVersion)) t = some first := by
        refine Option.isSome_iff_exists.mp (List.find?_isSome.mpr ⟨t, hmem, ?_⟩)
        exact decide_eq_true ⟨rfl, rfl⟩
      simp [hfirst]

/-- Chunks and single packets give the same shreds exactly when answers are shared. -/
lemma flatMap_judgedChunk_eq_iff (chunks : List (List Packet)) :
    chunks.flatMap (judgedChunk lib schedule shredVersion) =
        (chunks.flatten.map fun p => [p]).flatMap (judgedChunk lib schedule shredVersion) ↔
      AnswersShared lib schedule shredVersion chunks := by
  -- both sides pick from the packets, each with its chunk
  let pairs := chunks.flatMap fun chunk => chunk.map fun p => (chunk, p)
  let inChunk : List Packet × Packet → Option VerifiedShred := fun pair =>
    judgedOf lib schedule shredVersion
      (pair.1.filterMap (checkOf lib schedule shredVersion)) pair.2
  let own : List Packet × Packet → Option VerifiedShred := fun pair =>
    (parsedOf lib schedule shredVersion pair.2).map fun parsed =>
      (parsed.shred.withVerdict (parsed.triple.map lib.verifyOne)).unindexed
  have hchunks : chunks.flatMap (judgedChunk lib schedule shredVersion) =
      pairs.filterMap inChunk := by
    rw [List.filterMap_flatMap]
    refine List.flatMap_congr fun chunk _ => ?_
    rw [List.filterMap_map]
    rfl
  have hsingles : (chunks.flatten.map fun p => [p]).flatMap (judgedChunk lib schedule shredVersion)
      = pairs.filterMap own := by
    have hflatten : chunks.flatten = pairs.map Prod.snd := by
      rw [List.map_flatMap, List.flatten_eq_flatMap]
      refine List.flatMap_congr fun chunk _ => ?_
      rw [List.map_map]
      exact (List.map_id chunk).symm
    rw [hflatten, List.map_map, List.flatMap_map, List.filterMap_eq_flatMap_toList]
    refine List.flatMap_congr fun pair _ => ?_
    exact judgedChunk_singleton pair.2
  rw [hchunks, hsingles, filterMap_eq_filterMap_iff]
  · constructor
    · intro h chunk hchunk p hp
      exact (judgedOf_eq_own_iff hp).mp
        (h (chunk, p) (List.mem_flatMap.mpr ⟨chunk, hchunk, List.mem_map.mpr ⟨p, hp, rfl⟩⟩))
    · intro h pair hpair
      obtain ⟨chunk, hchunk, hmem⟩ := List.mem_flatMap.mp hpair
      obtain ⟨p, hp, rfl⟩ := List.mem_map.mp hmem
      exact (judgedOf_eq_own_iff hp).mpr (h chunk hchunk p hp)
  · intro pair _
    simp [inChunk, own, judgedOf]

/-- The verdicts of packets verified alone are their own. -/
lemma map_sigOk_singletons (packets : List Packet) :
    ((packets.map fun p => [p]).flatMap (judgedChunk lib schedule shredVersion)).map
        VerifiedShred.sigOk =
      (packets.filterMap (parsedOf lib schedule shredVersion)).map
        fun parsed => parsed.triple.map lib.verifyOne := by
  induction packets with
  | nil => rfl
  | cons p packets ih =>
    rw [List.map_cons, List.flatMap_cons, List.map_append, ih, judgedChunk_singleton]
    cases hparsed : parsedOf lib schedule shredVersion p with
    | none => rw [List.filterMap_cons_none hparsed]; rfl
    | some parsed => rw [List.filterMap_cons_some hparsed]; rfl

/-- **Chunks agree with single packets exactly when answers are shared.**  For any split of packets
into chunks, if `verify_batch` succeeds exactly when `verify_one` accepts every triple: every packet
gets the shred it gets alone, with the verdict of its own signature over its own root under its own
leader, if and only if in every chunk a packet has the same answer under its own leader as under the
leader of the first packet with its signature and root. -/
theorem independent_iff_answersShared (lib : VerifyLibrary)
    (hbatch : ∀ triples, lib.verifyBatch triples = triples.all lib.verifyOne)
    (schedule : LeaderSchedule) (shredVersion : Option ℕ) (stats : VerifyStats)
    (chunks : List (List Packet)) :
    Independent lib schedule shredVersion stats chunks ↔
      AnswersShared lib schedule shredVersion chunks := by
  have hsame : (verifyChunks lib schedule shredVersion stats chunks).2.map
      VerifiedShred.unindexed = chunks.flatMap (judgedChunk lib schedule shredVersion) :=
    verifyChunks_unindexed hbatch stats chunks
  have hsingles : (verifyChunks lib schedule shredVersion stats
      (chunks.flatten.map fun p => [p])).2.map VerifiedShred.unindexed =
      (chunks.flatten.map fun p => [p]).flatMap (judgedChunk lib schedule shredVersion) :=
    verifyChunks_unindexed hbatch stats _
  rw [← flatMap_judgedChunk_eq_iff, ← hsame, ← hsingles]
  constructor
  · exact Independent.same
  · intro h
    refine ⟨h, ?_⟩
    have hsig : ∀ shreds : List VerifiedShred, shreds.map VerifiedShred.sigOk =
        (shreds.map VerifiedShred.unindexed).map VerifiedShred.sigOk := by
      intro shreds
      rw [List.map_map]
      rfl
    rw [hsig, h, hsingles, map_sigOk_singletons]

/-- A library in which a signature is the key followed by the message. -/
def concatenationLibrary : VerifyLibrary where
  getSlot s := s[65]?.map UInt8.toNat
  getFecSetIndex s := s[79]?.map UInt8.toNat
  getIndex s := s[73]?.map UInt8.toNat
  getMerkleRoot _ := some (Vector.replicate 32 9)
  hash _ := Vector.replicate 32 0
  validKey key := key.length == 32
  verifyStrict key message sig := sig == key ++ message
  verifyBatch triples := triples.all fun t =>
    t.leader.toList.length == 32 && t.sig == t.leader.toList ++ t.root.toList

/-- A schedule of two slots with different leaders. -/
def twoLeaders : LeaderSchedule :=
  some ⟨0, 0, [some (Vector.replicate 32 1), some (Vector.replicate 32 2)]⟩

/-- A data shred of a slot that the leader of slot 0 signed. -/
def signedByFirst (slot : UInt8) : Packet where
  provider := 0
  rxUnixNs := 0
  data := List.replicate 32 1 ++ List.replicate 32 9 ++ [0x80, slot] ++ List.replicate 24 0

/-- Two shreds of slot 0 that its leader signed. -/
theorem independent_signedByFirst :
    Independent concatenationLibrary twoLeaders none VerifyStats.default
      [[signedByFirst 0, signedByFirst 0]] := by
  refine (independent_iff_answersShared concatenationLibrary (fun _ => rfl) twoLeaders none
    VerifyStats.default _).mpr ?_
  intro chunk hchunk p hp t ht first hfirst
  rw [List.mem_singleton.mp hchunk] at hp hfirst
  obtain ⟨q, hq, hcheck⟩ := List.mem_filterMap.mp (List.mem_of_find?_eq_some hfirst)
  have hsame : q = p := by
    simp only [List.mem_cons, List.not_mem_nil, or_false, or_self] at hp hq
    rw [hp, hq]
  rw [hsame, ht] at hcheck
  rw [Option.some.inj hcheck]

/-- A shred of slot 1 that the leader of slot 0 signed is taken for signed by the leader of slot 1,
since a shred of slot 0 with its signature and root comes before it in the chunk. -/
theorem not_independent_signedByFirst :
    ¬ Independent concatenationLibrary twoLeaders none VerifyStats.default
      [[signedByFirst 0, signedByFirst 1]] := by
  intro h
  have hown := h.own
  revert hown
  decide

end ShredTools.Audit

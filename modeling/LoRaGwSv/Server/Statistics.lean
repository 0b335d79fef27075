import Mathlib.Data.Finset.Dedup
import Mathlib.Order.Interval.Finset.Nat
import LoRaGwSv.Machinery.Runs
import LoRaGwSv.Server.Received

/-!
# Server/Statistics — what the server counts of a node's data

A node numbers its data, and copies reach the server directly or through a relay.  The server keeps
the latest number; a lower one starts the statistics anew, an equal one is a duplicate.  So the
count is that of the distinct numbers **since the statistics started** (`truthful_run`).

Each frame the server checks whether a new number came.  The count of silent frames starts anew when
it reaches its limit, as the `else` belongs to the inner test (`countsMissed_iff`).
-/

namespace LoRaGwSv

/-- A copy of a node's data that reaches the server. -/
structure DataCopy where
  seq : UInt16
  isDataRelay : Bool
deriving DecidableEq

/-- The calls that touch the statistics. -/
inductive StatCall
  | update (addr seq : UInt16) (isDataRelay : Bool)
  | check
deriving DecidableEq

/-- NODES, with what has happened to the node at `A` beside it. -/
structure StatWatch where
  NODES : MngtNodeList
  /-- The copies since the statistics started, the last one first. -/
  log : List DataCopy
  /-- A new number came since the last check. -/
  news : Bool
  /-- The lower number that last started the statistics anew, if one did since the last check. -/
  restart : Option UInt16
  /-- How many checks in a row saw no new number. -/
  silent : ℕ
  checked : Bool

namespace StatWatch

/-- Nothing has come yet. -/
def start (lst : MngtNodeList) : StatWatch := ⟨lst, [], false, none, 0, false⟩

/-- The number that came last. -/
def latest (s : StatWatch) : UInt16 := (s.log.head?.map DataCopy.seq).getD 0

/-- The distinct numbers that came since the statistics started. -/
def distinct (s : StatWatch) : ℕ := (s.log.map DataCopy.seq).toFinset.card

/-- How many copies came over one of the links. -/
def linkCount (s : StatWatch) (relayed : Bool) : ℕ :=
  s.log.countP fun copy => copy.isDataRelay = relayed

/-- A lower number than the last starts the log anew. -/
def receive (s : StatWatch) (copy : DataCopy) : StatWatch :=
  if copy.seq < s.latest then { s with log := [copy], news := true, restart := some copy.seq }
  else { s with log := copy :: s.log, news := s.news || copy.seq ≠ s.latest }

end StatWatch

/-- One call, seen from the node at `A`. -/
def StatCall.step (A : UInt16) (s : StatWatch) : StatCall → Option StatWatch
  | .update addr seq isDataRelay =>
    let heard := if addr = A then s.receive ⟨seq, isDataRelay⟩ else s
    some { heard with
      NODES := dmNodeUpdateDataInfo s.NODES addr seq isDataRelay
      checked := false }
  | .check =>
    some { s with
      NODES := dmCheckDataMissed s.NODES
      news := false
      restart := none
      silent := if s.news then 0 else s.silent + 1
      checked := true }

/-- The node's statistics are as `createNewNode` makes them. -/
structure MngtNode.Unheard (n : MngtNode) : Prop where
  dataMissCount : n.dataMissCount = 0
  latestSeqNo : n.latestSeqNo = 0
  dataCount : n.dataCount = 0
  dataCountMainLink : n.dataCountMainLink = 0
  dataCountDirectLink : n.dataCountDirectLink = 0
  prevSeqNo : n.prevSeqNo = 0

/-- A new node is unheard, connected or not. -/
theorem unheard_createNewNode (genInfo : NodeGenInfo) (parrent : UInt16) (isConnected : Bool) :
    MngtNode.Unheard { createNewNode genInfo parrent with isConnected := isConnected } :=
  ⟨rfl, rfl, rfl, rfl, rfl, rfl⟩

variable {A addr seq : UInt16} {r : Bool} {n : MngtNode} {lst : MngtNodeList} {s : StatWatch}

/-- **What the server counted is what came**: the counts stay below the latest number, those of the
links as long as no number came twice over the same link. -/
structure MngtNode.Truthful (n : MngtNode) (s : StatWatch) : Prop where
  counted : n.dataCount.toNat = s.distinct
  within : n.dataCount.toNat ≤ n.latestSeqNo.toNat
  main : s.log.Nodup → n.dataCountMainLink.toNat ≤ n.latestSeqNo.toNat
  direct : s.log.Nodup → n.dataCountDirectLink.toNat ≤ n.latestSeqNo.toNat

/-- The list has a node at `A`, and its statistics are those of the copies that came. -/
def StatWatch.Truthful (A : UInt16) (s : StatWatch) : Prop :=
  ∃ n, getNodeReferenceByAddress s.NODES A = some n ∧ n.Truthful s

/-- The node at `A` numbers its data from 1 on. -/
def StatCall.Numbered (A : UInt16) : StatCall → Prop
  | .update addr seq _ => addr = A → seq ≠ 0
  | .check => True

instance StatCall.decidableNumbered (A : UInt16) :
    ∀ call : StatCall, Decidable (call.Numbered A)
  | .update addr seq _ => inferInstanceAs (Decidable (addr = A → seq ≠ 0))
  | .check => inferInstanceAs (Decidable True)

/-! ## The node in the list -/

/-- An update changes the node it is for, and no other. -/
theorem ref_dmNodeUpdateDataInfo (hn : getNodeReferenceByAddress lst A = some n) :
    getNodeReferenceByAddress (dmNodeUpdateDataInfo lst addr seq r) A
      = some (if addr = A then n.updateDataInfo seq r else n) := by
  have hkey : ∀ x : MngtNode, x.addr = addr → (x.updateDataInfo seq r).addr = addr :=
    fun x hx => (x.addr_updateDataInfo _ _).trans hx
  rw [getNodeReferenceByAddress] at hn
  rw [getNodeReferenceByAddress, dmNodeUpdateDataInfo, MngtNodeList.writeRef,
    Keyed.lookup_update hkey, hn]
  by_cases haddr : addr = A
  · rw [if_pos haddr.symm, if_pos haddr, haddr, hn]
    rfl
  · rw [if_neg (Ne.symm haddr), if_neg haddr]

/-- A check changes each node in the list in the same way. -/
theorem ref_dmCheckDataMissed (hn : getNodeReferenceByAddress lst A = some n) :
    getNodeReferenceByAddress (dmCheckDataMissed lst) A = some n.checkDataMissed := by
  have hkey : ∀ x : MngtNode, x.checkDataMissed.addr = x.addr := fun x => by
    rw [MngtNode.checkDataMissed]
    split <;> rfl
  rw [getNodeReferenceByAddress] at hn
  rw [getNodeReferenceByAddress, dmCheckDataMissed, Keyed.lookup_map hkey, hn]
  rfl

/-! ## Counting -/

/-- What is counted from 1 to `m` is at most `m`. -/
theorem card_seq_le {l : List DataCopy} {m : ℕ}
    (h : ∀ copy ∈ l, 1 ≤ copy.seq.toNat ∧ copy.seq.toNat ≤ m) :
    (l.map DataCopy.seq).toFinset.card ≤ m := by
  have hinj : Function.Injective UInt16.toNat := fun _ _ => UInt16.toNat_inj.mp
  have hsub : (l.map DataCopy.seq).toFinset.image UInt16.toNat ⊆ Finset.Icc 1 m := by
    intro k hk
    obtain ⟨seq, hseq, rfl⟩ := Finset.mem_image.mp hk
    obtain ⟨copy, hcopy, rfl⟩ := List.mem_map.mp (List.mem_toFinset.mp hseq)
    exact Finset.mem_Icc.mpr (h copy hcopy)
  have hcard := Finset.card_le_card hsub
  rwa [Finset.card_image_of_injective _ hinj, Nat.card_Icc, Nat.add_sub_cancel] at hcard

/-- Over one link, different copies have different numbers. -/
theorem over_le {m : ℕ} (h : ∀ copy ∈ s.log, 1 ≤ copy.seq.toNat ∧ copy.seq.toNat ≤ m)
    (hnodup : s.log.Nodup) (relayed : Bool) : s.linkCount relayed ≤ m := by
  have hseqs : ((s.log.filter fun copy => copy.isDataRelay = relayed).map DataCopy.seq).Nodup := by
    refine (List.nodup_map_iff_inj_on (hnodup.filter _)).mpr fun c hc c' hc' heq => ?_
    have hr := of_decide_eq_true (List.mem_filter.mp hc).2
    have hr' := of_decide_eq_true (List.mem_filter.mp hc').2
    cases c
    cases c'
    simp_all
  rw [StatWatch.linkCount, List.countP_eq_length_filter, ← List.length_map DataCopy.seq,
    ← List.toFinset_card_of_nodup hseqs]
  exact card_seq_le fun copy hcopy => h copy (List.mem_of_mem_filter hcopy)

/-- The link a node of this type mainly sends over. -/
def NodeType.relayed (type : NodeType) : Bool := type = .twohop

/-- A copy over the main link raises the count of the main link. -/
theorem countLink_mainLink (n : MngtNode) (r : Bool) : (n.countLink r).dataCountMainLink
    = if r = n.genInfo.type.relayed then n.dataCountMainLink + 1 else n.dataCountMainLink := by
  rw [MngtNode.countLink.eq_def]
  cases n.genInfo.type <;> cases r <;> rfl

/-- A direct copy raises the count of the direct link, whatever the main link is. -/
theorem countLink_directLink (n : MngtNode) (r : Bool) : (n.countLink r).dataCountDirectLink
    = if r = false then n.dataCountDirectLink + 1 else n.dataCountDirectLink := by
  rw [MngtNode.countLink.eq_def]
  cases n.genInfo.type <;> cases r <;> rfl

/-- The counts of the links leave the count of data alone. -/
theorem countLink_dataCount (n : MngtNode) (r : Bool) :
    (n.countLink r).dataCount = n.dataCount := by
  rw [MngtNode.countLink.eq_def]
  split <;> rfl

/-- Taking a number leaves what the node has registered. -/
theorem takeSeqNo_genInfo (n : MngtNode) (seq : UInt16) :
    (n.takeSeqNo seq).genInfo = n.genInfo := by
  rw [MngtNode.takeSeqNo]
  split_ifs <;> rfl

theorem updateDataInfo_genInfo (n : MngtNode) (seq : UInt16) (r : Bool) :
    (n.updateDataInfo seq r).genInfo = n.genInfo := by
  rw [MngtNode.updateDataInfo, MngtNode.countLink.eq_def]
  split <;> exact takeSeqNo_genInfo n seq

/-- The copy that came last has the latest number. -/
theorem latest_receive (s : StatWatch) (copy : DataCopy) : (s.receive copy).latest = copy.seq := by
  rw [StatWatch.receive]
  split <;> rfl

/-- A copy is counted on its link; a restart forgets those before. -/
theorem over_receive (s : StatWatch) (copy : DataCopy) (relayed : Bool) :
    (s.receive copy).linkCount relayed = (if copy.seq < s.latest then 0 else s.linkCount relayed)
      + if copy.isDataRelay = relayed then 1 else 0 := by
  rw [StatWatch.receive]
  split <;> simp [StatWatch.linkCount, List.countP_cons]

/-- The counters tell what is in the log. -/
structure StatWatch.Counted (s : StatWatch) (n : MngtNode) : Prop where
  latest : n.latestSeqNo = s.latest
  numbers : ∀ copy ∈ s.log, 1 ≤ copy.seq.toNat ∧ copy.seq.toNat ≤ s.latest.toNat
  count : n.dataCount.toNat = s.distinct
  main : n.dataCountMainLink = UInt16.ofNat (s.linkCount n.genInfo.type.relayed)
  direct : n.dataCountDirectLink = UInt16.ofNat (s.linkCount false)

/-- A node that is unheard counts nothing, as nothing has come. -/
theorem MngtNode.Unheard.counted (h : n.Unheard) : (StatWatch.start lst).Counted n where
  latest := h.latestSeqNo
  numbers := by simp [StatWatch.start]
  count := by rw [h.dataCount]; rfl
  main := h.dataCountMainLink
  direct := h.dataCountDirectLink

/-- Counting what came bounds the counts, as the numbers start at 1. -/
theorem StatWatch.Counted.truthful (h : s.Counted n) : n.Truthful s := by
  have hlinks : ∀ {k : UInt16} {relayed : Bool}, k = UInt16.ofNat (s.linkCount relayed) →
      s.log.Nodup → k.toNat ≤ s.latest.toNat := by
    rintro _ relayed rfl hnodup
    rw [UInt16.toNat_ofNat']
    exact (Nat.mod_le _ _).trans (over_le h.numbers hnodup relayed)
  refine ⟨h.count, ?_, ?_, ?_⟩
  · rw [h.count, h.latest]
    exact card_seq_le h.numbers
  · rw [h.latest]
    exact hlinks h.main
  · rw [h.latest]
    exact hlinks h.direct

/-- After a copy all numbers in the log lie between 1 and its own. -/
theorem StatWatch.Counted.numbers_receive (h : s.Counted n) (hseq : seq ≠ 0) :
    ∀ copy ∈ (s.receive ⟨seq, r⟩).log, 1 ≤ copy.seq.toNat ∧ copy.seq.toNat ≤ seq.toNat := by
  have hpos : 1 ≤ seq.toNat := Nat.one_le_iff_ne_zero.mpr fun h0 => hseq (UInt16.toNat_inj.mp h0)
  rw [StatWatch.receive]
  split
  case isTrue => exact List.forall_mem_singleton.mpr ⟨hpos, le_rfl⟩
  case isFalse hge =>
    have hle : s.latest.toNat ≤ seq.toNat := UInt16.le_iff_toNat_le.mp (UInt16.not_lt.mp hge)
    refine List.forall_mem_cons.mpr ⟨⟨hpos, le_rfl⟩, fun copy hcopy => ?_⟩
    exact (h.numbers copy hcopy).imp_right hle.trans'

/-- A number not below the latest is new to the log exactly if it is above it. -/
theorem StatWatch.Counted.mem_log_iff (h : s.Counted n) (hseq : seq ≠ 0) (hge : ¬ seq < s.latest) :
    seq ∈ s.log.map DataCopy.seq ↔ seq = s.latest := by
  constructor
  · intro hmem
    obtain ⟨copy, hcopy, rfl⟩ := List.mem_map.mp hmem
    exact UInt16.le_antisymm (UInt16.le_iff_toNat_le.mpr (h.numbers copy hcopy).2)
      (UInt16.not_lt.mp hge)
  · rintro rfl
    rw [StatWatch.latest] at hseq ⊢
    cases hlog : s.log with
    | nil => exact absurd (by rw [hlog]; rfl) hseq
    | cons copy log => exact List.mem_cons_self

/-- What the number does to the statistics, before its link is counted. -/
theorem StatWatch.Counted.takeSeqNo (h : s.Counted n) (hseq : seq ≠ 0) :
    (n.takeSeqNo seq).dataCount.toNat = (s.receive ⟨seq, r⟩).distinct ∧
    (n.takeSeqNo seq).dataCountMainLink
      = UInt16.ofNat (if seq < s.latest then 0 else s.linkCount n.genInfo.type.relayed) ∧
    (n.takeSeqNo seq).dataCountDirectLink
      = UInt16.ofNat (if seq < s.latest then 0 else s.linkCount false) := by
  rw [MngtNode.takeSeqNo, StatWatch.receive, h.latest]
  by_cases hlt : seq < s.latest
  · rw [if_neg (UInt16.lt_asymm hlt), if_pos hlt, if_pos hlt, if_pos hlt, if_pos hlt]
    exact ⟨rfl, rfl, rfl⟩
  have hmem := h.mem_log_iff hseq hlt
  rw [if_neg hlt, if_neg hlt, if_neg hlt, if_neg hlt]
  by_cases hgt : s.latest < seq
  · rw [if_pos hgt]
    refine ⟨?_, h.main, h.direct⟩
    have hnew : seq ∉ (s.log.map DataCopy.seq).toFinset := by
      rw [List.mem_toFinset, hmem]
      exact fun heq => UInt16.lt_irrefl _ (heq ▸ hgt)
    have hcount : n.dataCount.toNat ≤ s.latest.toNat := h.count.trans_le (card_seq_le h.numbers)
    have hlast := UInt16.lt_iff_toNat_lt.mp hgt
    have hmax := seq.toNat_lt
    rw [StatWatch.distinct, List.map_cons, List.toFinset_cons, Finset.card_insert_of_notMem hnew,
      ← StatWatch.distinct, ← h.count, UInt16.toNat_add, UInt16.toNat_one]
    omega
  · rw [if_neg hgt]
    refine ⟨?_, h.main, h.direct⟩
    have hold : seq ∈ (s.log.map DataCopy.seq).toFinset := by
      rw [List.mem_toFinset, hmem]
      exact UInt16.le_antisymm (UInt16.not_lt.mp hgt) (UInt16.not_lt.mp hlt)
    rw [StatWatch.distinct, List.map_cons, List.toFinset_cons, Finset.insert_eq_of_mem hold,
      ← StatWatch.distinct, h.count]

/-- **A copy is counted once in the log, and once by its link.** -/
theorem StatWatch.Counted.receive (h : s.Counted n) (hseq : seq ≠ 0) :
    (s.receive ⟨seq, r⟩).Counted (n.updateDataInfo seq r) := by
  obtain ⟨hcount, hmain, hdirect⟩ := @StatWatch.Counted.takeSeqNo seq r _ _ h hseq
  refine ⟨?_, ?_, ?_, ?_, ?_⟩
  · rw [n.latestSeqNo_updateDataInfo, latest_receive]
  · rw [latest_receive]
    exact h.numbers_receive hseq
  · rw [MngtNode.updateDataInfo, countLink_dataCount, hcount]
  · rw [updateDataInfo_genInfo, MngtNode.updateDataInfo, countLink_mainLink, takeSeqNo_genInfo,
      hmain, over_receive]
    dsimp only
    split <;> simp
  · rw [MngtNode.updateDataInfo, countLink_directLink, hdirect, over_receive]
    dsimp only
    split <;> simp

/-- A check leaves the counts of data alone. -/
theorem StatWatch.Counted.checkDataMissed (h : s.Counted n) : s.Counted n.checkDataMissed := by
  obtain ⟨hlatest, hnumbers, hcount, hmain, hdirect⟩ := h
  rw [MngtNode.checkDataMissed]
  split <;> exact ⟨hlatest, hnumbers, hcount, hmain, hdirect⟩

/-- The list has a node at `A` that counts what came. -/
def StatWatch.CountedAt (A : UInt16) (s : StatWatch) : Prop :=
  ∃ n, getNodeReferenceByAddress s.NODES A = some n ∧ s.Counted n

theorem StatWatch.CountedAt.step {call : StatCall} (h : s.CountedAt A) (hnum : call.Numbered A) :
    ∃ t, call.step A s = some t ∧ t.CountedAt A := by
  obtain ⟨n, hn, hcounted⟩ := h
  cases call with
  | update addr seq r =>
    refine ⟨_, rfl, _, ref_dmNodeUpdateDataInfo hn, ?_⟩
    by_cases haddr : addr = A
    · rw [if_pos haddr, if_pos haddr]
      have hrec := @StatWatch.Counted.receive seq r _ _ hcounted (hnum haddr)
      exact ⟨hrec.latest, hrec.numbers, hrec.count, hrec.main, hrec.direct⟩
    · rw [if_neg haddr, if_neg haddr]
      exact ⟨hcounted.latest, hcounted.numbers, hcounted.count, hcounted.main, hcounted.direct⟩
  | check =>
    have hcheck := hcounted.checkDataMissed
    exact ⟨_, rfl, _, ref_dmCheckDataMissed hn,
      hcheck.latest, hcheck.numbers, hcheck.count, hcheck.main, hcheck.direct⟩

/-- **After every call the count is the number of distinct sequence numbers that came since the
statistics started.** -/
theorem truthful_run (A : UInt16) (lst : MngtNodeList) (n : MngtNode)
    (hn : getNodeReferenceByAddress lst A = some n) (hunheard : n.Unheard) (calls : List StatCall)
    (hnum : ∀ call ∈ calls, call.Numbered A) :
    Runs.Always (StatCall.step A) (StatWatch.Truthful A) (.start lst) calls := by
  have hstart : (StatWatch.start lst).CountedAt A := ⟨n, hn, hunheard.counted⟩
  have hstep : ∀ s (call : StatCall), s.CountedAt A → call.Numbered A →
      ∃ t, call.step A s = some t ∧ t.CountedAt A := fun _ _ h hcall => h.step hcall
  refine (Runs.always_of_inv hstep hstart calls hnum).imp ?_
  rintro s ⟨n, hn, hcounted⟩
  exact ⟨n, hn, hcounted.truthful⟩

/-- A list with one node, connected, at address 1. -/
def oneNode : MngtNodeList :=
  (pushNode (initNodeList false)
    { createNewNode ⟨1, 0, 1, .onehop⟩ 0 with isConnected := true }).2

/-- Three copies, one of them a duplicate over the same link. -/
theorem truthful_run_three : Runs.Always (StatCall.step 1) (StatWatch.Truthful 1) (.start oneNode)
    [.update 1 1 false, .update 1 3 false, .check, .update 1 3 false] :=
  truthful_run 1 oneNode _ rfl (unheard_createNewNode ⟨1, 0, 1, .onehop⟩ 0 true) _ (by
    simp only [List.forall_mem_cons]
    decide)

/-- The numbers of the node at `A` that came so far. -/
def StatCall.numbers (A : UInt16) (calls : List StatCall) : List UInt16 :=
  calls.filterMap fun
    | .update addr seq _ => if addr = A then some seq else none
    | .check => none

/-- **Two numbers that change places are counted as one.** -/
theorem not_counted_reordered : ¬ ∃ t n,
    Runs.run (StatCall.step 1) (.start oneNode) [.update 1 2 false, .update 1 1 false] = some t ∧
    getNodeReferenceByAddress t.NODES 1 = some n ∧
    n.dataCount.toNat = (StatCall.numbers 1
      [.update 1 2 false, .update 1 1 false]).toFinset.card := by
  rintro ⟨t, n, ht, hn, hcount⟩
  obtain rfl := Option.some.inj ht
  obtain rfl := Option.some.inj hn
  exact absurd hcount (by decide)

/-! ## Silent frames -/

/-- After a check, the count is that of the silent frames, up to its limit. -/
def StatWatch.CountsMissed (A : UInt16) (s : StatWatch) : Prop :=
  s.checked = true → ∃ n, getNodeReferenceByAddress s.NODES A = some n ∧
    n.dataMissCount.toNat = min twohopMaxMissDataAllowed.toNat s.silent

/-- A check counts right if fewer frames than the limit were silent before it, and if news have not
come all the way from a restart at 0 to the last number there is. -/
def StatCall.InTime (s : StatWatch) : StatCall → Prop
  | .update _ _ _ => True
  | .check => if s.news then ¬ (s.restart = some 0 ∧ s.latest = 65535) else s.silent < 65535

instance StatCall.decidableInTime (s : StatWatch) : ∀ call : StatCall, Decidable (call.InTime s)
  | .update _ _ _ => inferInstanceAs (Decidable True)
  | .check =>
    inferInstanceAs (Decidable
      (if s.news then ¬ (s.restart = some 0 ∧ s.latest = 65535) else s.silent < 65535))

/-- The count and the number of the last check tell what came since. -/
structure StatWatch.Follows (s : StatWatch) (n : MngtNode) : Prop where
  connected : n.isConnected = true
  latest : n.latestSeqNo = s.latest
  missed : n.dataMissCount.toNat = if s.news then 0 else min 65535 s.silent
  restarted : ∀ seq, s.restart = some seq →
    s.news = true ∧ n.prevSeqNo = seq - 1 ∧ seq ≤ s.latest
  unbroken : s.restart = none → n.prevSeqNo ≤ s.latest ∧ (s.news = true ↔ n.prevSeqNo ≠ s.latest)

/-- The list has a node at `A` that follows what came. -/
def StatWatch.FollowsAt (A : UInt16) (s : StatWatch) : Prop :=
  ∃ n, getNodeReferenceByAddress s.NODES A = some n ∧ s.Follows n

/-- A connected node that is unheard follows, as nothing has come. -/
theorem MngtNode.Unheard.follows (h : n.Unheard) (hconn : n.isConnected = true) :
    (StatWatch.start lst).Follows n where
  connected := hconn
  latest := h.latestSeqNo
  missed := by rw [h.dataMissCount]; rfl
  restarted := fun _ hnone => nomatch hnone
  unbroken := fun _ => by
    rw [h.prevSeqNo]
    exact ⟨UInt16.le_refl _, iff_of_false Bool.false_ne_true fun hne => hne rfl⟩

theorem StatWatch.Follows.countLink (h : s.Follows n) (r : Bool) : s.Follows (n.countLink r) := by
  obtain ⟨hconn, hlatest, hmissed, hrestarted, hunbroken⟩ := h
  rw [MngtNode.countLink.eq_def]
  split <;> exact ⟨hconn, hlatest, hmissed, hrestarted, hunbroken⟩

/-- A copy with another number clears the count of silent frames, a lower one sets the number of the
last check too. -/
theorem StatWatch.Follows.receive (h : s.Follows n) (seq : UInt16) (r : Bool) :
    (s.receive ⟨seq, r⟩).Follows (n.updateDataInfo seq r) := by
  refine StatWatch.Follows.countLink ?_ r
  rw [MngtNode.takeSeqNo, StatWatch.receive, h.latest]
  by_cases hlt : seq < s.latest
  · rw [if_neg (UInt16.lt_asymm hlt), if_pos hlt, if_pos hlt]
    refine ⟨h.connected, rfl, rfl, ?_, fun hnone => absurd hnone (Option.some_ne_none seq)⟩
    rintro seq' hseq
    obtain rfl := Option.some.inj hseq
    exact ⟨rfl, rfl, UInt16.le_refl _⟩
  rw [if_neg hlt, if_neg hlt]
  by_cases hgt : s.latest < seq
  · rw [if_pos hgt, decide_eq_true (UInt16.ne_of_lt hgt).symm, Bool.or_true]
    refine ⟨h.connected, rfl, rfl, fun seq' hseq' => ?_, fun hnone => ?_⟩
    · obtain ⟨-, hprev, hle⟩ := h.restarted seq' hseq'
      exact ⟨rfl, hprev, UInt16.le_of_lt (UInt16.lt_of_le_of_lt hle hgt)⟩
    · have hprev := UInt16.lt_of_le_of_lt (h.unbroken hnone).1 hgt
      exact ⟨UInt16.le_of_lt hprev, iff_of_true rfl (UInt16.ne_of_lt hprev)⟩
  · obtain rfl : seq = s.latest := UInt16.le_antisymm (UInt16.not_lt.mp hgt) (UInt16.not_lt.mp hlt)
    rw [if_neg hgt]
    simp only [ne_eq, not_true_eq_false, decide_false, Bool.or_false]
    exact ⟨h.connected, h.latest, h.missed, h.restarted, h.unbroken⟩

/-- **News look like none exactly if they came from a restart at 0 to the last number there is.** -/
theorem StatWatch.Follows.prevSeqNo_eq_iff (h : s.Follows n) (hnews : s.news = true) :
    n.prevSeqNo = n.latestSeqNo ↔ s.restart = some 0 ∧ s.latest = 65535 := by
  rw [h.latest]
  cases hrestart : s.restart with
  | none =>
    refine iff_of_false (((h.unbroken hrestart).2).mp hnews) ?_
    exact fun hnone => nomatch hnone.1
  | some seq =>
    obtain ⟨-, hprev, hle⟩ := h.restarted seq hrestart
    have hle := UInt16.le_iff_toNat_le.mp hle
    have hmax := s.latest.toNat_lt
    rw [hprev, Option.some_inj, ← UInt16.toNat_inj, ← UInt16.toNat_inj, ← UInt16.toNat_inj,
      UInt16.toNat_sub]
    show _ ↔ seq.toNat = 0 ∧ s.latest.toNat = 65535
    rw [UInt16.toNat_one]
    omega

/-- Where no number was new, the last one is still the one it was. -/
theorem StatWatch.Follows.prevSeqNo_of_silent (h : s.Follows n) (hnews : s.news = false) :
    n.prevSeqNo = n.latestSeqNo := by
  have hrestart : s.restart = none := by
    refine Option.eq_none_iff_forall_ne_some.mpr fun seq hseq => ?_
    exact Bool.false_ne_true (hnews.symm.trans (h.restarted seq hseq).1)
  by_contra hne
  rw [h.latest] at hne
  exact Bool.false_ne_true (hnews.symm.trans ((h.unbroken hrestart).2.mpr hne))

/-- The count of silent frames goes on below its limit, and starts anew at it. -/
theorem dataMissCount_of_silent {missed : UInt16} {silent : ℕ}
    (hmissed : missed.toNat = min 65535 silent) :
    (if missed < twohopMaxMissDataAllowed then missed + 1 else 0).toNat = min 65535 (silent + 1) ↔
      silent < 65535 := by
  have hlt : missed < twohopMaxMissDataAllowed ↔ silent < 65535 := by
    rw [UInt16.lt_iff_toNat_lt, hmissed]
    show min 65535 silent < 65535 ↔ _
    omega
  by_cases hsilent : silent < 65535
  · rw [if_pos (hlt.mpr hsilent), UInt16.toNat_add, hmissed, UInt16.toNat_one]
    refine iff_of_true ?_ hsilent
    show (min 65535 silent + 1) % 2 ^ 16 = _
    omega
  · rw [if_neg fun hcon => hsilent (hlt.mp hcon)]
    refine iff_of_false ?_ hsilent
    show ¬ 0 = min 65535 (silent + 1)
    omega

/-- **What a check counts.** -/
theorem StatWatch.Follows.check (h : s.Follows n) :
    n.checkDataMissed.dataMissCount.toNat = min 65535 (if s.news then 0 else s.silent + 1) ↔
      StatCall.check.InTime s := by
  rw [MngtNode.checkDataMissed, if_pos h.connected, StatCall.InTime]
  dsimp only
  have hmissed := h.missed
  cases hnews : s.news with
  | true =>
    rw [hnews, if_pos rfl] at hmissed
    have hzero : n.dataMissCount = 0 := UInt16.toNat_inj.mp hmissed
    rw [if_pos rfl, if_pos rfl, ← h.prevSeqNo_eq_iff hnews]
    by_cases heq : n.prevSeqNo = n.latestSeqNo
    · rw [if_pos heq, hzero]
      exact iff_of_false (by decide) fun hne => hne heq
    · rw [if_neg heq, hzero]
      exact iff_of_true rfl heq
  | false =>
    rw [hnews] at hmissed
    rw [if_pos (h.prevSeqNo_of_silent hnews), if_neg Bool.false_ne_true,
      if_neg Bool.false_ne_true]
    exact dataMissCount_of_silent hmissed

/-- One call counts right exactly if it is in time. -/
theorem StatWatch.FollowsAt.step (h : s.FollowsAt A) (call : StatCall) :
    ∃ t, call.step A s = some t ∧ (t.CountsMissed A ↔ call.InTime s) ∧
      (call.InTime s → t.FollowsAt A) := by
  obtain ⟨n, hn, hfollows⟩ := h
  cases call with
  | update addr seq r =>
    refine ⟨_, rfl, iff_of_true (fun hchecked => nomatch hchecked) trivial, fun _ => ?_⟩
    refine ⟨_, ref_dmNodeUpdateDataInfo hn, ?_⟩
    by_cases haddr : addr = A
    · rw [if_pos haddr, if_pos haddr]
      have hrec := hfollows.receive seq r
      exact ⟨hrec.connected, hrec.latest, hrec.missed, hrec.restarted, hrec.unbroken⟩
    · rw [if_neg haddr, if_neg haddr]
      exact ⟨hfollows.connected, hfollows.latest, hfollows.missed, hfollows.restarted,
        hfollows.unbroken⟩
  | check =>
    have hcheck := hfollows.check
    refine ⟨_, rfl, ⟨fun hcounts => ?_, fun hin _ => ?_⟩, fun hin => ?_⟩
    · obtain ⟨m, hm, hmissed⟩ := hcounts rfl
      obtain rfl := Option.some.inj ((ref_dmCheckDataMissed hn).symm.trans hm)
      exact hcheck.mp hmissed
    · exact ⟨_, ref_dmCheckDataMissed hn, hcheck.mpr hin⟩
    · refine ⟨_, ref_dmCheckDataMissed hn, ?_, ?_, ?_, ?_, fun _ => ?_⟩
      · rw [MngtNode.checkDataMissed, if_pos hfollows.connected]
        exact hfollows.connected
      · rw [MngtNode.checkDataMissed, if_pos hfollows.connected]
        exact hfollows.latest
      · exact hcheck.mpr hin
      · exact fun _ hnone => nomatch hnone
      · rw [MngtNode.checkDataMissed, if_pos hfollows.connected]
        dsimp only
        rw [hfollows.latest]
        exact ⟨UInt16.le_refl _, iff_of_false Bool.false_ne_true fun hne => hne rfl⟩

/-- From a node that is unheard the silent frames are counted right in every state of a run if and
only if each call of it is in time. -/
theorem countsMissed_of_unheard (hn : getNodeReferenceByAddress lst A = some n)
    (hunheard : n.Unheard) (hconn : n.isConnected = true) (calls : List StatCall) :
    Runs.Always (StatCall.step A) (StatWatch.CountsMissed A) (.start lst) calls ↔
      Runs.EachStep (StatCall.step A) (fun s call => call.InTime s) (.start lst) calls := by
  have hstart : (StatWatch.start lst).FollowsAt A := ⟨n, hn, hunheard.follows hconn⟩
  exact Runs.always_iff_eachStep (fun s call h _ => h.step call) hstart
    (fun hchecked => nomatch hchecked) calls

/-- **Every check of a run counts the silent frames right exactly if every check is in time.** -/
theorem countsMissed_iff (A : UInt16) (lst : MngtNodeList) (n : MngtNode)
    (hn : getNodeReferenceByAddress lst A = some n) (hunheard : n.Unheard)
    (hconn : n.isConnected = true) (calls : List StatCall) :
    Runs.Always (StatCall.step A) (StatWatch.CountsMissed A) (.start lst) calls ↔
      Runs.EachStep (StatCall.step A) (fun s call => call.InTime s) (.start lst) calls :=
  countsMissed_of_unheard hn hunheard hconn calls

/-- A frame with news between silent ones. -/
theorem countsMissed_iff_three : Runs.Always (StatCall.step 1) (StatWatch.CountsMissed 1)
    (.start oneNode) [.check, .update 1 1 false, .check, .check] :=
  (countsMissed_iff 1 oneNode _ rfl (unheard_createNewNode ⟨1, 0, 1, .onehop⟩ 0 true) rfl _).mpr
    (Runs.eachStep_of_checkEach _ (by decide))

/-- A row of checks with no new number counts all of them. -/
theorem silent_checks (A : UInt16) (k : ℕ) (hnews : s.news = false) :
    ∃ t, Runs.run (StatCall.step A) s (List.replicate k .check) = some t ∧ t.news = false ∧
      t.silent = s.silent + k := by
  induction k generalizing s with
  | zero => exact ⟨s, rfl, hnews, rfl⟩
  | succ k ih =>
    rw [List.replicate_succ, Runs.run_cons rfl]
    obtain ⟨t, ht, hnews', hsilent⟩ := @ih { s with
      NODES := dmCheckDataMissed s.NODES
      news := false
      restart := none
      silent := if s.news then 0 else s.silent + 1
      checked := true } rfl
    refine ⟨t, ht, hnews', hsilent.trans ?_⟩
    rw [hnews, if_neg Bool.false_ne_true, Nat.add_right_comm, Nat.add_assoc]

/-- **After 65536 silent frames the count is 0.** -/
theorem not_countsMissed_silent : ¬ Runs.Always (StatCall.step 1) (StatWatch.CountsMissed 1)
    (.start oneNode) (List.replicate 65536 .check) := by
  rw [countsMissed_of_unheard (n := { createNewNode ⟨1, 0, 1, .onehop⟩ 0 with isConnected := true })
    rfl (unheard_createNewNode ⟨1, 0, 1, .onehop⟩ 0 true) rfl]
  intro heach
  obtain ⟨t, ht, hin⟩ := heach (List.replicate 65535 .check) .check
    ⟨[], by rw [List.append_nil, ← List.replicate_succ']⟩
  obtain ⟨t', ht', hnews, hsilent⟩ := @silent_checks (.start oneNode) 1 65535 rfl
  obtain rfl := Option.some.inj (ht.symm.trans ht')
  rw [StatCall.InTime, hnews, if_neg Bool.false_ne_true, hsilent] at hin
  exact absurd hin (by decide)

end LoRaGwSv

import Piotbench.Client.Requests
import Piotbench.Link.Progress
import Piotbench.Server.Order

/-!
# What the client reads

The link with all the bytes that the client has sent and received. They are the same bytes at both
ends of a channel (`Streams`), so what the server knows of its session and what the client knows of
its requests come together: every complete response that the client reads is the reply to one of its
own requests, and no two of them are replies to the same one (`replies_to_own_requests`). When no
response is overtaken at the submitter they come in the order of the requests
(`replies_in_order`).
-/

namespace Piotbench.Link

open Server Client Transition

/-- A link, and all the bytes that its client has sent and received. -/
structure Recorded where
  link : LinkState
  sent : List Byte
  heard : List Byte

def Recorded.init (cfg : ServerConfig) (bufs : BufId → ServerBuffer) (nrRequests : Nat) :
    Recorded :=
  ⟨.init cfg bufs nrRequests, [], []⟩

/-- The bytes that the client sends in a step. -/
def LinkState.sends (l : LinkState) : LinkAction → List Byte
  | .server _ => []
  | .client b => Client.bytesOut l.client b

/-- The bytes that the client receives in a step. -/
def LinkAction.hears : LinkAction → List Byte
  | .server _ => []
  | .client b => Client.bytesIn b

def recordedStep (cfg : ServerConfig) (sha1 : Sha1) (c : ConnId) (n : Nat) (r : Recorded)
    (a : LinkAction) : Option Recorded :=
  (linkStep cfg sha1 c n r.link a).map fun l => ⟨l, r.sent ++ r.link.sends a, r.heard ++ a.hears⟩

/-- The server's steps meet `ok`. -/
def LinkState.Meets (ok : ServerContext → Action → Prop) (l : LinkState) : LinkAction → Prop
  | .server a => ok l.srv.srv a
  | .client _ => True

instance (ok : ServerContext → Action → Prop) [∀ s a, Decidable (ok s a)] (l : LinkState) :
    (a : LinkAction) → Decidable (l.Meets ok a)
  | .server a => inferInstanceAs (Decidable (ok l.srv.srv a))
  | .client _ => .isTrue trivial

/-- The runs of a recorded link on whose server steps all meet `ok`. -/
abbrev RecordedRun (cfg : ServerConfig) (sha1 : Sha1) (c : ConnId) (n : Nat)
    (ok : ServerContext → Action → Prop) (bufs : BufId → ServerBuffer) (nrRequests : Nat) :
    Recorded → Prop :=
  Reachable (recordedStep cfg sha1 c n) (fun r a => r.link.Meets ok a) (.init cfg bufs nrRequests)

section Run

variable {cfg : ServerConfig} {sha1 : Sha1} {c : ConnId} {n : Nat} {bufs : BufId → ServerBuffer}
  {nrRequests : Nat} {ok : ServerContext → Action → Prop} {r r' : Recorded}

theorem recordedStep_cases {a : LinkAction} (h : recordedStep cfg sha1 c n r a = some r') :
    linkStep cfg sha1 c n r.link a = some r'.link ∧ r'.sent = r.sent ++ r.link.sends a ∧
      r'.heard = r.heard ++ a.hears := by
  obtain ⟨l, hl, rfl⟩ := Option.map_eq_some_iff.mp h
  exact ⟨hl, rfl, rfl⟩

/-- **The record is only a record.** -/
theorem RecordedRun.link (hok : ∀ s a, ok s a → Orderly s a)
    (h : RecordedRun cfg sha1 c n ok bufs nrRequests r) :
    LinkRun cfg sha1 c n bufs nrRequests r.link := by
  apply h.project Recorded.link
  intro r a r' hmeets hstep
  refine .inr ⟨a, ?_, (recordedStep_cases hstep).1⟩
  cases a with
  | server a => exact hok _ _ hmeets
  | client a => trivial

theorem RecordedRun.trace (h : RecordedRun cfg sha1 c n ok bufs nrRequests r) :
    Trace cfg sha1 ok bufs r.link.srv := by
  apply h.project fun r => r.link.srv
  intro r a r' hmeets hstep
  have hlink := (recordedStep_cases hstep).1
  cases a with
  | server a => exact .inr ⟨a, hmeets, (serverStep_cases hlink).1⟩
  | client a => exact .inl (clientStep_cases hlink).2.1

/-! ## The channels carry bytes -/

/-- What one side has written is what the other has read and what is on the way, until session `n`
is over. -/
structure Streams (c : ConnId) (n : Nat) (r : Recorded) : Prop where
  up : (r.link.srv.hist c).session ≤ n → r.sent = rx r.link.srv c n ++ r.link.up
  down : (r.link.srv.hist c).session ≤ n → wire r.link.srv c n = r.heard ++ r.link.down

theorem rx_of_eq {t : Traced} (h : (t.hist c).session = n) : rx t c n = (t.hist c).rx := if_pos h

theorem wire_of_eq {t : Traced} (h : (t.hist c).session = n) : wire t c n = (t.hist c).wire :=
  if_pos h

theorem rx_of_ne {t : Traced} (h : (t.hist c).session ≠ n) : rx t c n = [] := if_neg h

theorem wire_of_ne {t : Traced} (h : (t.hist c).session ≠ n) : wire t c n = [] := if_neg h

theorem streams_server {a : Action} {l : LinkState} (h : Streams c n r)
    (hstep : serverStep cfg sha1 c n r.link a = some l) :
    Streams c n { r with link := l } := by
  obtain ⟨ht, -, hchan⟩ := serverStep_cases hstep
  rcases session_step ht c with hnew | ⟨hsame, hrx, hwire⟩
  · -- a new session has received and sent nothing
    have hnext : (l.srv.hist c).session = (r.link.srv.hist c).session + 1 := by rw [hnew]; rfl
    have hempty : rx l.srv c n = [] ∧ wire l.srv c n = [] := by
      by_cases heq : (l.srv.hist c).session = n
      · rw [rx_of_eq heq, wire_of_eq heq, hnew]
        exact ⟨rfl, rfl⟩
      · exact ⟨rx_of_ne heq, wire_of_ne heq⟩
    have hold : (l.srv.hist c).session ≤ n →
        (r.link.srv.hist c).session ≤ n ∧ (r.link.srv.hist c).session ≠ n := by
      intro hle
      omega
    refine ⟨fun hle => ?_, fun hle => ?_⟩
    · obtain ⟨hle₀, hne₀⟩ := hold hle
      have hup := h.up hle₀
      rcases hchan with ⟨heq, -⟩ | ⟨-, hsame, -⟩
      · exact absurd heq hne₀
      · rw [rx_of_ne hne₀] at hup
        simp only [hempty.1, hsame]
        exact hup
    · obtain ⟨hle₀, hne₀⟩ := hold hle
      have hdown := h.down hle₀
      rcases hchan with ⟨heq, -⟩ | ⟨-, -, hsame⟩
      · exact absurd heq hne₀
      · rw [wire_of_ne hne₀] at hdown
        simp only [hempty.2, hsame]
        exact hdown
  · refine ⟨fun hle => ?_, fun hle => ?_⟩
    · have hup := h.up (hsame ▸ hle)
      rcases hchan with ⟨heq, hin, -⟩ | ⟨hne, hin, -⟩
      · rw [rx_of_eq heq, hin] at hup
        simp only [rx_of_eq (hsame.trans heq), hrx, List.append_assoc]
        exact hup
      · have hne' : (l.srv.hist c).session ≠ n := fun heq => hne (hsame ▸ heq)
        rw [rx_of_ne hne] at hup
        simp only [rx_of_ne hne', hin]
        exact hup
    · have hdown := h.down (hsame ▸ hle)
      rcases hchan with ⟨heq, -, hout⟩ | ⟨hne, -, hout⟩
      · rw [wire_of_eq heq] at hdown
        simp only [wire_of_eq (hsame.trans heq), hwire, hdown, hout, List.append_assoc]
      · have hne' : (l.srv.hist c).session ≠ n := fun heq => hne (hsame ▸ heq)
        rw [wire_of_ne hne] at hdown
        simp only [wire_of_ne hne', hout]
        exact hdown

theorem streams_step {a : LinkAction} (h : Streams c n r)
    (hstep : recordedStep cfg sha1 c n r a = some r') : Streams c n r' := by
  obtain ⟨hlink, hsent, hheard⟩ := recordedStep_cases hstep
  cases a with
  | server a =>
    have hserver := streams_server h hlink
    simp only [LinkState.sends, LinkAction.hears, List.append_nil] at hsent hheard
    refine ⟨fun hle => ?_, fun hle => ?_⟩
    · rw [hsent]
      exact hserver.up hle
    · rw [hheard]
      exact hserver.down hle
  | client b =>
    obtain ⟨-, hsrv, hup, hdown⟩ := clientStep_cases hlink
    refine ⟨fun hle => ?_, fun hle => ?_⟩
    · rw [hsrv] at hle ⊢
      rw [hsent, hup, h.up hle, List.append_assoc]
      rfl
    · rw [hsrv] at hle ⊢
      rw [h.down hle, hdown, hheard, List.append_assoc]
      rfl

/-- **The channels lose and change nothing** in every run. -/
theorem RecordedRun.streams (h : RecordedRun cfg sha1 c n ok bufs nrRequests r) :
    Streams c n r := by
  refine h.invariant (I := Streams c n) ?_ fun _ hI _ hstep => streams_step hI hstep
  refine ⟨fun _ => ?_, fun _ => ?_⟩
  · show [] = rx (Traced.init cfg bufs) c n ++ []
    unfold rx
    split <;> rfl
  · show wire (Traced.init cfg bufs) c n = []
    unfold wire
    split <;> rfl

/-! ## The client's requests

Before session `n` and in the course of it the client hears nothing that has not been sent in answer
to a request, which is what `DialogueOk` asks of a peer. -/

/-- Session `n` has not begun, or it is open. -/
def Serving (c : ConnId) (n : Nat) (t : Traced) : Prop :=
  (t.hist c).session < n ∨
    (t.hist c).session = n ∧ t.srv.InSession c ∧ (t.srv.conns c).closed = false

/-- A session that is served after a step was served before. -/
theorem serving_back {t t' : Traced} {a : Action} (hinv : Inv cfg t.srv)
    (hstep : tstep cfg sha1 t a = some t') (h : Serving c n t') : Serving c n t := by
  have hs := step_cases (tstep_srv hstep)
  rcases session_step hstep c with hnew | ⟨hsame, -, -⟩
  · have hnext : (t'.hist c).session = (t.hist c).session + 1 := by rw [hnew]; rfl
    rcases h with hlt | ⟨heq, -⟩
    · exact .inl (by omega)
    · exact .inl (by omega)
  · rcases h with hlt | ⟨heq, hin, hcl⟩
    · exact .inl (hsame ▸ hlt)
    · by_cases hold : t.srv.InSession c
      · exact .inr ⟨hsame.symm.trans heq, hold, open_before hs hold hcl⟩
      · -- the session would have just begun
        obtain ⟨hnew, -⟩ := ledger_fresh hinv hs (tstep_eq hstep).2.1 hold hin
        have hnext : (t'.hist c).session = (t.hist c).session + 1 := by rw [hnew]; rfl
        omega

/-- The connection, with the bytes on both sides of it. -/
def Recorded.dialogue (r : Recorded) : Dialogue := ⟨r.link.client, r.sent, r.heard⟩

/-- What an open session has sent are replies to complete requests. -/
theorem wire_answered {t : Traced} (h : Trace cfg sha1 Orderly bufs t) (hin : t.srv.InSession c)
    (hcl : (t.srv.conns c).closed = false) : answered (t.hist c).rx (t.hist c).wire := by
  obtain ⟨hrx, hwire, hpart⟩ := counted_bytes h hin hcl
  have hacc := (inv_of_trace (fun _ _ => id) h).accounts c hin
  have hout := hacc.output hcl
  have hflow := hacc.flow
  have hreceived : (t.srv.conns c).received ≤ (t.hist c).rx.length / sizeofRequest := by
    rw [hrx, Nat.mul_add_div (by decide)]
    exact Nat.le_add_right _ _
  have hbound := Nat.mul_le_mul_left sizeofResponse hreceived
  unfold Client.answered
  cases hb : (t.srv.conns c).sendbuf with
  | none =>
    rw [outgoing_idle hb, List.length_nil, Nat.add_zero] at hwire
    have hsent : (t.srv.conns c).sent ≤ (t.srv.conns c).received := by omega
    have hless := Nat.mul_le_mul_left sizeofResponse hsent
    omega
  | some b =>
    simp only [hb, Option.toList_some, List.length_singleton] at hout
    have hsent : (t.srv.conns c).sent + 1 ≤ (t.srv.conns c).received := by omega
    have hless := Nat.mul_le_mul_left sizeofResponse hsent
    rw [Nat.mul_succ] at hless
    omega

theorem answered_mono {wire wire' heard heard' : List Byte} (h : answered wire' heard')
    (hwire : wire'.length ≤ wire.length) (hheard : heard.length ≤ heard'.length) :
    answered wire heard := by
  apply Nat.le_trans hheard
  apply Nat.le_trans h
  exact Nat.mul_le_mul_left _ (Nat.div_le_div_right hwire)

/-- **The server is a good peer.** -/
theorem peerOk_of_serving (h : Trace cfg sha1 Orderly bufs r.link.srv) (hstreams : Streams c n r)
    (hserving : Serving c n r.link.srv) {b : ClientAction} {l : LinkState}
    (hstep : clientStep r.link b = some l) : r.dialogue.PeerOk b := by
  obtain ⟨-, -, -, hread⟩ := clientStep_cases hstep
  show answered r.sent (r.heard ++ Client.bytesIn b)
  rcases hserving with hlt | ⟨heq, hin, hcl⟩
  · -- nothing has come down the channel
    have hdown := hstreams.down (Nat.le_of_lt hlt)
    rw [wire_of_ne (Nat.ne_of_lt hlt), hread] at hdown
    have hlen := congrArg List.length hdown
    simp only [List.length_nil, List.length_append] at hlen
    unfold Client.answered
    rw [List.length_append]
    omega
  · have hup := hstreams.up (Nat.le_of_eq heq)
    have hdown := hstreams.down (Nat.le_of_eq heq)
    rw [rx_of_eq heq] at hup
    rw [wire_of_eq heq, hread] at hdown
    refine answered_mono (wire_answered h hin hcl) ?_ ?_
    · rw [hup, List.length_append]
      exact Nat.le_add_right _ _
    · rw [hdown, List.length_append, List.length_append, List.length_append]
      omega

/-- **What the client has sent are its requests**, as long as session `n` is served. -/
theorem RecordedRun.dialogueOk (hok : ∀ s a, ok s a → Orderly s a) (hpos : 1 ≤ nrRequests)
    (h : RecordedRun cfg sha1 c n ok bufs nrRequests r) (hserving : Serving c n r.link.srv) :
    DialogueOk nrRequests r.dialogue := by
  refine h.invariant (I := fun r => Serving c n r.link.srv → DialogueOk nrRequests r.dialogue)
    (fun _ => dialogueOk_init hpos) ?_ hserving
  intro r a r' hr hI _ hstep hserving'
  obtain ⟨hlink, hsent, hheard⟩ := recordedStep_cases hstep
  have htrace := (RecordedRun.link hok hr).trace
  cases a with
  | server a =>
    obtain ⟨ht, hclient, -⟩ := serverStep_cases hlink
    have hold := hI (serving_back (inv_of_trace (fun _ _ => id) htrace) ht hserving')
    have hsame : r'.dialogue = r.dialogue := by
      simp only [Recorded.dialogue, hclient, hsent, hheard, LinkState.sends, LinkAction.hears,
        List.append_nil]
    rw [hsame]
    exact hold
  | client b =>
    obtain ⟨hcl, hsrv, -, -⟩ := clientStep_cases hlink
    rw [hsrv] at hserving'
    have hpeer := peerOk_of_serving htrace (RecordedRun.streams hr) hserving' hlink
    apply dialogueOk_step (hI hserving') hpeer
    simp only [Dialogue.step, Recorded.dialogue, hcl, Option.map_some, hsent, hheard,
      LinkState.sends, LinkAction.hears]

/-! ## Replies -/

/-- The reply to request `i` of the client: its id, and the digest of 1020 zeros. -/
def reply (sha1 : Sha1) (i : Nat) : List Byte :=
  idBytes i ++ (sha1 (List.replicate requestLength 0)).toList

theorem length_reply (sha1 : Sha1) (i : Nat) : (reply sha1 i).length = sizeofResponse := by
  rw [reply, List.length_append, length_idBytes, List.Vector.toList_length]
  rfl

theorem response_request (sha1 : Sha1) (i : Nat) : response sha1 (request i) = reply sha1 i := by
  rw [response, request, reply, List.take_left' (length_idBytes i),
    List.drop_left' (length_idBytes i)]

/-- An id is written modulo `2 ^ 32` anyway. -/
theorem requests_eq (k : Nat) : requests k = ((List.range k).map request).flatten := by
  rw [requests]
  congr 1
  apply List.map_congr_left
  intro id _
  rw [request, idBytes_mod, request]

/-- The requests received in an open session are the first of the client's, in order. -/
theorem RecordedRun.requests_received (hok : ∀ s a, ok s a → Orderly s a) (hpos : 1 ≤ nrRequests)
    (h : RecordedRun cfg sha1 c n ok bufs nrRequests r)
    (hsession : (r.link.srv.hist c).session = n) (hin : r.link.srv.srv.InSession c)
    (hcl : (r.link.srv.srv.conns c).closed = false) :
    (r.link.srv.hist c).requests =
      (List.range (r.link.srv.srv.conns c).received).map request := by
  have htrace := RecordedRun.trace h
  have hcounted := counted_of_trace hok htrace hin hcl
  have hchain := chain_of_run hpos (RecordedRun.link hok h) hsession hin hcl
  have hwire := (RecordedRun.dialogueOk hok hpos h (.inr ⟨hsession, hin, hcl⟩)).wire
  have hup := (RecordedRun.streams h).up (Nat.le_of_eq hsession)
  rw [rx_of_eq hsession, hcounted.intake.rx, List.append_assoc] at hup
  have hblocks : Bytes.blocks sizeofRequest r.sent =
      (List.range r.link.client.conn.status.sent).map request := by
    rw [show r.sent = r.dialogue.wire from rfl, hwire, requests_eq]
    apply Bytes.blocks_flatten
    · rw [Bytes.length_slice]
      exact done_le _ _ (by decide)
    · intro req hreq
      obtain ⟨id, -, rfl⟩ := List.mem_map.mp hreq
      exact length_request id
  have hprefix : (r.link.srv.hist c).requests <+: Bytes.blocks sizeofRequest r.sent := by
    have hcut := Bytes.blocks_flatten (n := sizeofRequest) [] (r.link.srv.hist c).requests
      (by decide) hcounted.intake.framed
    rw [List.append_nil] at hcut
    rw [← hcut]
    apply Bytes.blocks_prefix
    rw [hup]
    exact List.prefix_append _ _
  rw [hblocks] at hprefix
  have htake := List.prefix_iff_eq_take.mp hprefix
  rw [hcounted.staged.count, ← List.map_take, List.take_range,
    Nat.min_eq_left hchain.received] at htake
  exact htake

/-- The number of a request that is answered. -/
def answerIndex : Option Origin → Nat
  | some o => o.index
  | none => 0

/-- The numbers of the requests that a session has answered, in the order of the answers. -/
def answerOrder (t : Traced) (c : ConnId) : List Nat := (t.hist c).answers.map answerIndex

theorem map_answerIndex_received (t : Traced) (c : ConnId) :
    (received t c).map answerIndex = List.range (t.hist c).requests.length := by
  rw [received, List.map_map]
  exact List.map_id _

/-- Every request is answered once, or waits. -/
theorem answerOrder_perm {t : Traced} (h : Staged t c) :
    ∃ waiting, (answerOrder t c ++ waiting).Perm (List.range (t.srv.conns c).received) := by
  have hperm := h.stages.map answerIndex
  rw [map_answerIndex_received, h.count, answeredOrWaiting, List.map_append] at hperm
  exact ⟨_, hperm⟩

theorem answerOrder_nodup {t : Traced} (h : Staged t c) : (answerOrder t c).Nodup := by
  obtain ⟨waiting, hperm⟩ := answerOrder_perm h
  exact (List.nodup_append.mp (hperm.nodup_iff.mpr List.nodup_range)).1

theorem answerOrder_lt {t : Traced} (h : Staged t c) {i : Nat} (hi : i ∈ answerOrder t c) :
    i < (t.srv.conns c).received := by
  obtain ⟨waiting, hperm⟩ := answerOrder_perm h
  exact List.mem_range.mp (hperm.subset (List.mem_append_left _ hi))

/-- The responses to the requests answered are replies to requests of the client. -/
theorem responses_eq {t : Traced} (hstaged : Staged t c)
    (hrequests : (t.hist c).requests = (List.range (t.srv.conns c).received).map request) :
    ((t.hist c).answers.map fun o => response sha1 ((t.hist c).requestOf o)) =
      (answerOrder t c).map (reply sha1) := by
  rw [answerOrder, List.map_map]
  apply List.map_congr_left
  intro o ho
  obtain ⟨i, hi, rfl⟩ := List.mem_map.mp (hstaged.mem_received (List.mem_append_left _ ho))
  rw [hstaged.count] at hi
  have hget : (t.hist c).requests.getD i [] = request i := by
    rw [hrequests, List.getD_eq_getElem?_getD, List.getElem?_map,
      List.getElem?_range (List.mem_range.mp hi)]
    rfl
  show response sha1 ((t.hist c).requests.getD i []) = reply sha1 i
  rw [hget, response_request]

/-- What the client has read, cut into responses. -/
theorem heard_blocks (hpos : 1 ≤ nrRequests)
    (h : RecordedRun cfg sha1 c n ok bufs nrRequests r)
    (hok : ∀ s a, ok s a → Orderly s a ∧ clockOk a = true)
    (hsession : (r.link.srv.hist c).session = n) (hin : r.link.srv.srv.InSession c)
    (hcl : (r.link.srv.srv.conns c).closed = false) :
    (r.link.srv.hist c).wire =
        ((answerOrder r.link.srv c).map (reply sha1)).flatten ++ r.link.srv.srv.outgoing c ∧
      Bytes.blocks sizeofResponse r.heard =
        ((answerOrder r.link.srv c).take r.link.client.conn.status.received).map (reply sha1) := by
  have horderly : ∀ s a, ok s a → Orderly s a := fun s a hsa => (hok s a hsa).1
  have htranscript := transcript_of_trace
    (Reachable.strengthen (fun _ hsa => hok _ _ hsa) (RecordedRun.trace h)) hin hcl
  have hrequests := RecordedRun.requests_received horderly hpos h hsession hin hcl
  have hwire := htranscript.wire
  rw [Wire, responses_eq htranscript.counted.staged hrequests] at hwire
  refine ⟨hwire, ?_⟩
  have hdown := (RecordedRun.streams h).down (Nat.le_of_eq hsession)
  rw [wire_of_eq hsession] at hdown
  have hcut : Bytes.blocks sizeofResponse (r.link.srv.hist c).wire =
      (answerOrder r.link.srv c).map (reply sha1) := by
    rw [hwire]
    apply Bytes.blocks_flatten _ _ htranscript.counted.emitted.outgoing_lt
    intro res hres
    obtain ⟨i, -, rfl⟩ := List.mem_map.mp hres
    exact length_reply sha1 i
  have hprefix : Bytes.blocks sizeofResponse r.heard <+:
      (answerOrder r.link.srv c).map (reply sha1) := by
    rw [← hcut]
    apply Bytes.blocks_prefix
    rw [hdown]
    exact List.prefix_append _ _
  have hreceived := (RecordedRun.dialogueOk horderly hpos h (.inr ⟨hsession, hin, hcl⟩)).received
  have hlen : (Bytes.blocks sizeofResponse r.heard).length =
      r.link.client.conn.status.received := by
    rw [Bytes.blocks, List.length_map, List.length_range]
    exact hreceived.symm
  rw [List.prefix_iff_eq_take.mp hprefix, hlen, List.map_take]

/-- **The client reads replies to its own requests.** While its session is open, the complete
responses that the client has read are replies to different requests that it has sent, each with
the request's id and the digest of its data. When it has read as many as it asked for, it has read
the reply to each of its requests once, and nothing else. -/
theorem replies_to_own_requests (hpos : 1 ≤ nrRequests)
    (h : RecordedRun cfg sha1 c n (fun s a => Orderly s a ∧ clockOk a = true) bufs nrRequests r)
    (hsession : (r.link.srv.hist c).session = n) (hin : r.link.srv.srv.InSession c)
    (hcl : (r.link.srv.srv.conns c).closed = false) :
    ∃ order : List Nat, order.Nodup ∧ (∀ i ∈ order, i < r.link.client.conn.status.sent) ∧
      order.length = r.link.client.conn.status.received ∧
      Bytes.blocks sizeofResponse r.heard = order.map (reply sha1) ∧
      (r.link.client.conn.status.received = r.link.client.conn.status.total →
        order.Perm (List.range r.link.client.conn.status.total) ∧
        r.heard = (order.map (reply sha1)).flatten) := by
  have horderly : ∀ s a, Orderly s a ∧ clockOk a = true → Orderly s a := fun _ _ => And.left
  have hlink := RecordedRun.link horderly h
  have hchain := chain_of_run hpos hlink hsession hin hcl
  have hinv := inv_of_trace horderly (RecordedRun.trace h)
  have hstaged := (counted_of_trace horderly (RecordedRun.trace h) hin hcl).staged
  obtain ⟨hwire, hblocks⟩ := heard_blocks hpos h (fun _ _ hsa => hsa) hsession hin hcl
  have hcount : (answerOrder r.link.srv c).length = (r.link.srv.srv.conns c).sent := by
    rw [answerOrder, List.length_map, length_answers hinv hin hcl hstaged]
  have htaken : ((answerOrder r.link.srv c).take r.link.client.conn.status.received).length =
      r.link.client.conn.status.received := by
    rw [List.length_take, hcount]
    exact Nat.min_eq_left hchain.client_received
  refine ⟨(answerOrder r.link.srv c).take r.link.client.conn.status.received, ?_, ?_, htaken,
    hblocks, ?_⟩
  · exact (answerOrder_nodup hstaged).sublist (List.take_sublist _ _)
  · intro i hi
    exact Nat.lt_of_lt_of_le (answerOrder_lt hstaged (List.mem_of_mem_take hi)) hchain.received
  · intro hdone
    obtain ⟨-, -, hreceived, hprocessed, hsent, -, hdown⟩ :=
      finished_of_run hpos hlink hsession hin hcl hdone
    have hall : (answerOrder r.link.srv c).take r.link.client.conn.status.received =
        answerOrder r.link.srv c := by
      apply List.take_of_length_le
      rw [hcount]
      omega
    have hnone : (r.link.srv.srv.conns c).sendbuf = none := by
      have hout := (hinv.accounts c hin).output hcl
      cases hb : (r.link.srv.srv.conns c).sendbuf with
      | none => rfl
      | some b =>
        simp only [hb, Option.toList_some, List.length_singleton] at hout
        omega
    rw [hall]
    constructor
    · obtain ⟨waiting, hperm⟩ := answerOrder_perm hstaged
      have hlen := hperm.length_eq
      rw [List.length_append, List.length_range, hcount] at hlen
      have hnil : waiting = [] := List.length_eq_zero_iff.mp (by omega)
      rw [hnil, List.append_nil, hreceived] at hperm
      exact hperm
    · have hread := (RecordedRun.streams h).down (Nat.le_of_eq hsession)
      rw [wire_of_eq hsession, hdown, List.append_nil, hwire, outgoing_idle hnone,
        List.append_nil] at hread
      exact hread.symm

/-- **Replies come in order** when no response is overtaken at the submitter. -/
theorem replies_in_order (hpos : 1 ≤ nrRequests)
    (h : RecordedRun cfg sha1 c n
      (fun s a => (Orderly s a ∧ clockOk a = true) ∧ noOvertaking c s a = true) bufs nrRequests r)
    (hsession : (r.link.srv.hist c).session = n) (hin : r.link.srv.srv.InSession c)
    (hcl : (r.link.srv.srv.conns c).closed = false) :
    Bytes.blocks sizeofResponse r.heard =
      (List.range r.link.client.conn.status.received).map (reply sha1) := by
  have horderly : ∀ s a, (Orderly s a ∧ clockOk a = true) ∧ noOvertaking c s a = true →
      Orderly s a := fun _ _ hsa => hsa.1.1
  have hchain := chain_of_run hpos (RecordedRun.link horderly h) hsession hin hcl
  have hinv := inv_of_trace horderly (RecordedRun.trace h)
  have hstaged := (counted_of_trace horderly (RecordedRun.trace h) hin hcl).staged
  have hover : Trace cfg sha1 (fun s a => Orderly s a ∧ noOvertaking c s a = true) bufs
      r.link.srv := Reachable.strengthen (fun _ hsa => ⟨hsa.1.1, hsa.2⟩) (RecordedRun.trace h)
  have hprefix := answers_prefix hover
  have horder : answerOrder r.link.srv c = List.range (r.link.srv.srv.conns c).sent := by
    have hmap := hprefix.map answerIndex
    rw [map_answerIndex_received] at hmap
    have htake := List.prefix_iff_eq_take.mp hmap
    rw [List.length_map, length_answers hinv hin hcl hstaged, hstaged.count, List.take_range,
      Nat.min_eq_left (Nat.le_trans hchain.sent hchain.processed)] at htake
    exact htake
  rw [(heard_blocks hpos h (fun _ _ hsa => hsa.1) hsession hin hcl).2, horder, List.take_range,
    Nat.min_eq_left hchain.client_received]

end Run

/-- Two requests and their responses, with the session still open. -/
def twoReplies : List LinkAction :=
  askTwo.map .client ++ serveTwo.dropLast.map .server ++ hangUp.map .client

theorem exists_twoReplies : ∃ r, RecordedRun smallServer zeroSha1 0 1
      (fun s a => (Orderly s a ∧ clockOk a = true) ∧ noOvertaking 0 s a = true) blankBuffers 2 r ∧
    (r.link.srv.hist 0).session = 1 ∧ r.link.srv.srv.InSession 0 ∧
    (r.link.srv.srv.conns 0).closed = false ∧ r.link.client.conn.status.received = 2 ∧
    r.link.client.conn.status.total = 2 := by
  have hrun := exists_reachable_of_run twoReplies
    (fun r => decide ((r.link.srv.srv.io 0).pc = .response 0 false ∧
      (r.link.srv.hist 0).session = 1 ∧ r.link.client.conn.status.received = 2 ∧
      r.link.client.conn.status.total = 2))
    (by decide +kernel : (run (recordedStep smallServer zeroSha1 0 1)
      (fun r a => r.link.Meets
        (fun s a => (Orderly s a ∧ clockOk a = true) ∧ noOvertaking 0 s a = true) a)
      (.init smallServer blankBuffers 2) twoReplies).map _ = some true)
  obtain ⟨r, hr, hp⟩ := hrun
  obtain ⟨hpc, hsession, hreceived, htotal⟩ := of_decide_eq_true hp
  have hop := (inv_of_trace (fun _ _ hsa => hsa.1.1) (RecordedRun.trace hr)).openAt (k := 0)
    (c := 0) (by simp [hpc, IoPc.conn])
  exact ⟨r, hr, hsession, hop.session, hop.closed, hreceived, htotal⟩

theorem replies_to_own_requests_two : ∃ r, RecordedRun smallServer zeroSha1 0 1
      (fun s a => Orderly s a ∧ clockOk a = true) blankBuffers 2 r ∧
    ∃ order : List Nat, order.Perm (List.range 2) ∧
      r.heard = (order.map (reply zeroSha1)).flatten := by
  obtain ⟨r, hr, hsession, hin, hcl, hreceived, htotal⟩ := exists_twoReplies
  have hweak : RecordedRun smallServer zeroSha1 0 1 (fun s a => Orderly s a ∧ clockOk a = true)
      blankBuffers 2 r := by
    apply Reachable.strengthen _ hr
    intro r a _ hmeets
    cases a with
    | server a => exact hmeets.1
    | client a => trivial
  obtain ⟨order, -, -, -, -, hall⟩ := replies_to_own_requests (by decide) hweak hsession hin hcl
  rw [hreceived, htotal] at hall
  exact ⟨r, hweak, order, hall rfl⟩

theorem replies_in_order_two : ∃ r, RecordedRun smallServer zeroSha1 0 1
      (fun s a => (Orderly s a ∧ clockOk a = true) ∧ noOvertaking 0 s a = true) blankBuffers 2 r ∧
    Bytes.blocks sizeofResponse r.heard = [reply zeroSha1 0, reply zeroSha1 1] := by
  obtain ⟨r, hr, hsession, hin, hcl, hreceived, -⟩ := exists_twoReplies
  have hblocks := replies_in_order (by decide) hr hsession hin hcl
  rw [hreceived] at hblocks
  exact ⟨r, hr, hblocks⟩

end Piotbench.Link

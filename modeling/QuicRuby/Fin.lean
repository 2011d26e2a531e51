/-
FIN: queued once, sent after all data, and marked flushed when it was.

That FIN is never early follows from the send buffer. That it is never lost
does not hold: after offering FIN alone, `write_pkt` takes any packet for
the one with FIN in it. `FinAnswered` is the exact condition under which it
is right.
-/
import QuicRuby.SendExact

namespace QuicRuby

open Runs

/-! ## FIN is never early -/

/-- Once FIN is queued nothing more is accepted. -/
theorem SendMove.finSent {c : Client} {ref : Nat} {s : QuicStream} {e : Event} {acc fr : List UInt8}
    {ff : Bool} {ak : Nat} {s' : QuicStream} (h : SendMove c ref s e acc fr ff ak s') (hf : s.finSent = true) :
    acc = [] ∧ s'.finSent = true := by
  cases h with
  | idle hs => exact ⟨rfl, by rw [hs.finSent, hf]⟩
  | accept data fin ho =>
    simp only [QuicStream.sendOpen, hf] at ho
    simp at ho
  | frame buffer answer =>
    refine ⟨rfl, ?_⟩
    unfold QuicStream.afterWritev QuicStream.accountWritev
    split
    · dsimp only
      split
      · split <;> exact hf
      · split <;> exact hf
    · exact hf
  | ack => exact ⟨rfl, hf⟩

theorem finSent_accepted {K : ClientContract} (hK : ∀ tr c e, K tr c e → FreshIds tr c e) {tr c}
    (h : Reach K tr c) {ref : Nat} {s : QuicStream} (hs : c.objs[ref]? = some s) (hf : s.finSent = true)
    {tr' c'} (hrun : Steps step K tr c tr' c') : accepted tr' ref = accepted tr ref := by
  refine (hrun.invariant (I := fun tr' c' => Registered c' ∧ accepted tr' ref = accepted tr ref ∧
    ∃ s', c'.objs[ref]? = some s' ∧ s'.finSent = true) ⟨h.registered hK, rfl, s, hs, hf⟩ ?_).2.1
  rintro tr' c' e r c'' ⟨hreg, hacc, s', hs', hf'⟩ hk hst
  obtain ⟨s'', hs'', hm⟩ := step_send hreg hst hs'
  obtain ⟨hnil, hf''⟩ := hm.finSent hf'
  refine ⟨hreg.after (hK _ _ _ hk) (step_after hst), ?_, s'', hs'', hf''⟩
  rw [accepted_snoc, hnil, List.append_nil, hacc]

/-- An answer that covers an offer with FIN gets the stream flushed. -/
theorem afterWritev_flushed {s : QuicStream} {args : WritevArgs} {answer : WritevAnswer}
    (ho : s.sendOffer = some args) (h : (args.fin && answer.covers args) = true) :
    (s.afterWritev args answer).finFlushed = true := by
  unfold WritevAnswer.covers at h
  unfold QuicStream.afterWritev QuicStream.accountWritev
  cases hres : answer.result with
  | error rv => simp [hres] at h
  | ok packet =>
    simp only [hres, Bool.and_eq_true, decide_eq_true_eq] at h ⊢
    obtain ⟨hfin, hpos, hlen⟩ := h
    rcases (sendOffer_cases ho).2.2 with ⟨-, hne⟩ | ⟨hcnt, hnil, -⟩
    · have hdata := List.length_pos_iff.2 hne
      simp [hfin, hlen, hdata]
    · simp [hfin, hlen, hcnt, hnil, hpos]

theorem SendMove.flushes {c : Client} {ref : Nat} {s : QuicStream} {e : Event} {acc fr : List UInt8}
    {ff : Bool} {ak : Nat} {s' : QuicStream} (h : SendMove c ref s e acc fr ff ak s') (hff : ff = true) :
    s'.finFlushed = true := by
  cases h with
  | frame buffer answer hb hpick ho => exact afterWritev_flushed ho hff
  | _ => cases hff

theorem SendMove.flushed {c : Client} {ref : Nat} {s : QuicStream} {e : Event} {acc fr : List UInt8}
    {ff : Bool} {ak : Nat} {s' : QuicStream} (h : SendMove c ref s e acc fr ff ak s')
    (hf : s.finFlushed = true) :
    ff = false ∧ s'.finFlushed = true := by
  cases h with
  | idle hs => exact ⟨rfl, by rw [hs.finFlushed, hf]⟩
  | accept => exact ⟨rfl, hf⟩
  | frame buffer answer hb hpick ho =>
    rw [(sendOffer_cases ho).1] at hf
    cases hf
  | ack => exact ⟨rfl, hf⟩

/-- A stream whose FIN was framed is marked flushed. -/
theorem finFlushed_of_finFramed {K : ClientContract} (hK : ∀ tr c e, K tr c e → FreshIds tr c e) {tr c}
    (h : Reach K tr c) {ref : Nat} {s : QuicStream} (hs : c.objs[ref]? = some s)
    (hff : finFramed c.calls s.streamId = true) : s.finFlushed = true := by
  refine h.objects hK (I := fun _ c _ s => finFramed c.calls s.streamId = true → s.finFlushed = true) ?_ ?_ hs hff
  · intro tr c e r c' id hrun hk hst ho hff
    obtain ⟨-, -, -, hno⟩ := hrun.opened hK hk hst ho
    rw [show (quicStreamNew id).streamId = id from rfl, hno] at hff
    cases hff
  · intro tr c e r c' ref s s' _ _ hst hs hm ih hff
    rw [hm.streamId, (step_after hst).calls, finFramed_append] at hff
    by_cases hf : s.finFlushed = true
    · exact (hm.flushed hf).2
    · have hnew : finFramed (e.newCalls c) s.streamId = true := by
        cases hold : finFramed c.calls s.streamId with
        | true => exact absurd (ih hold) hf
        | false => simpa [hold] using hff
      exact hm.flushes hnew

/-- **FIN is never early.** FIN goes with the end of what was accepted, a
flushed or framed FIN comes after all of it, and once FIN is queued nothing
more is accepted. -/
theorem fin_never_early {tr c} (h : Reach SendContract tr c) {ref : Nat} {s : QuicStream}
    (hs : c.objs[ref]? = some s) (hlt : (accepted tr ref).length < 2 ^ 64) :
    (∀ args, quicClientPickSendStream c = some (ref, args) → args.fin = true →
      s.finSent = true ∧ args.datav = (accepted tr ref).drop s.sentOffset.toNat ∧
        s.sentOffset.toNat + args.datav.length = (accepted tr ref).length) ∧
    (s.finFlushed = true → s.sentOffset.toNat = (accepted tr ref).length) ∧
    (finFramed c.calls s.streamId = true → s.finSent = true ∧ framed c.calls s.streamId = accepted tr ref) ∧
    (s.finSent = true → ∀ tr' c', Steps step SendContract tr c tr' c' → accepted tr' ref = accepted tr ref) := by
  obtain ⟨b, hb⟩ := h.tracks hs hlt
  have hrep := hb.represents
  rw [← hb.accepted_eq, ← hb.framed_eq, hrep.sent]
  refine ⟨?_, ?_, ?_, ?_⟩
  · intro args hpick hfin
    obtain ⟨-, s', hs', ho⟩ := pick_spec hpick
    obtain rfl : s' = s := by simpa [hs] using hs'.symm
    obtain ⟨-, hpre, hcases⟩ := hrep.offer ho
    have hend : s'.finSent = true ∧ b.sent + args.datav.length = b.accepted.length := by
      rcases hcases with ⟨-, -, hiff⟩ | ⟨-, hnil, -, hsent, hall⟩
      · exact hiff.1 hfin
      · exact ⟨hsent, by rw [hnil, List.length_nil, Nat.add_zero, hall]⟩
    refine ⟨hend.1, hpre.eq_of_length ?_, hend.2⟩
    rw [b.unsent_length]
    omega
  · intro hf
    exact (hrep.flushed hf).2
  · intro hff
    obtain ⟨hsent, hall⟩ := hrep.flushed (finFlushed_of_finFramed SendContract.fresh h hs hff)
    refine ⟨hsent, ?_⟩
    rw [SendBuffer.framed, hall, List.take_length]
  · intro hf tr' c' hrun
    rw [hb.accepted_eq]
    exact finSent_accepted SendContract.fresh h hs hf hrun

theorem fin_never_early_shortRun : ∃ s, shortRun.2.objs[0]? = some s ∧ s.finFlushed = true ∧
    s.sentOffset.toNat = (accepted shortRun.1 0).length :=
  ⟨_, rfl, rfl, (fin_never_early shortRun_reach rfl (by decide)).2.1 rfl⟩

/-- Without the bound it fails: FIN is flushed with `sent_offset` at 0 and
2^64 bytes accepted. -/
theorem finFlushed_not_total_of_wrap : ¬ ∀ tr c (ref : Nat) s, Reach SendContract tr c → c.objs[ref]? = some s →
    s.finFlushed = true → s.sentOffset.toNat = (accepted tr ref).length := by
  intro h
  obtain ⟨tr, c, s, hrun, hs, -, hsent, hflushed, hacc, -⟩ := exists_wrap true
  have heq := h tr c 0 s hrun hs hflushed
  rw [hsent, hacc] at heq
  simp at heq

/-! ## FIN lost -/

/-- What ngtcp2 says of `pdatalen`: at most what was offered, and -1 when
there is no STREAM frame, as when there is no packet. -/
def WritevAnswer.sound (answer : WritevAnswer) (args : WritevArgs) : Bool :=
  match answer.result with
  | .ok packet =>
    -1 ≤ answer.pdatalen ∧ answer.pdatalen ≤ args.datav.length ∧ (packet.length = 0 → answer.pdatalen = -1)
  | .error _ => true

/-- FIN alone was offered and the packet that came back has no STREAM frame. -/
def WritevAnswer.missesFin (answer : WritevAnswer) (args : WritevArgs) : Bool :=
  match answer.result with
  | .ok packet => 0 < packet.length ∧ args.datavcnt = 0 ∧ args.fin = true ∧ answer.pdatalen = -1
  | .error _ => false

def keepsFinPromise (c : Client) : Event → Bool
  | .writePkt _ answer => answer.sound c.writevArgs
  | _ => true

/-- No packet misses the FIN it was asked for. -/
def answersFin (c : Client) : Event → Bool
  | .writePkt buffer answer => buffer = some .other || !answer.missesFin c.writevArgs
  | _ => true

def FinContract : ClientContract := fun tr c e => FreshIds tr c e ∧ keepsFinPromise c e = true

def FinAnswered : ClientContract := fun _ c e => answersFin c e = true

instance : ∀ tr c e, Decidable (FinContract tr c e) := fun tr c e =>
  inferInstanceAs (Decidable (FreshIds tr c e ∧ keepsFinPromise c e = true))

instance : ∀ tr c e, Decidable (FinAnswered tr c e) := fun _ c e =>
  inferInstanceAs (Decidable (answersFin c e = true))

theorem FinContract.fresh (tr : ClientTrace) (c : Client) (e : Event) (h : FinContract tr c e) :
    FreshIds tr c e := h.1

/-- `fin_flushed` says exactly that FIN was framed, and a FIN queued and not
framed keeps being offered. -/
def FinExact (c : Client) : Prop :=
  ∀ (ref : Nat) s, c.objs[ref]? = some s →
    (s.finFlushed = true ↔ finFramed c.calls s.streamId = true) ∧
      (s.finSent = true → finFramed c.calls s.streamId = false → ∃ args, s.sendOffer = some args)

/-- An unflushed FIN is offered, with data or alone. -/
theorem sendOffer_of_finSent {s : QuicStream} (hf : s.finSent = true) (hnot : s.finFlushed = false) :
    ∃ args, s.sendOffer = some args := by
  unfold QuicStream.sendOffer
  simp only [hf, hnot, Bool.false_eq_true, if_false]
  split
  · exact ⟨_, rfl⟩
  · exact ⟨_, rfl⟩

theorem afterWritev_finFlushed {s : QuicStream} {args : WritevArgs} {answer : WritevAnswer}
    (ho : s.sendOffer = some args) (hsound : answer.sound args = true) :
    (s.afterWritev args answer).finFlushed = ((args.fin && answer.covers args) || answer.missesFin args) := by
  obtain ⟨hnot, -, hcases⟩ := sendOffer_cases ho
  unfold QuicStream.afterWritev QuicStream.accountWritev WritevAnswer.covers WritevAnswer.missesFin
  unfold WritevAnswer.sound at hsound
  cases hres : answer.result with
  | error rv => simp [hnot]
  | ok packet =>
    simp only [hres, decide_eq_true_eq] at hsound ⊢
    obtain ⟨hge, hle, hempty⟩ := hsound
    rcases hcases with ⟨hcnt, hne⟩ | ⟨hcnt, hnil, hfin⟩
    · have hdata := List.length_pos_iff.2 hne
      by_cases hpos : 0 < answer.pdatalen
      · have hpacket : 0 < packet.length := by
          rcases Nat.eq_zero_or_pos packet.length with h0 | h0
          · have := hempty h0
            omega
          · exact h0
        simp only [hpos, if_true, hcnt, hpacket]
        split
        · next hall => simpa using hall
        · next hall => simpa [hnot] using hall
      · have hshort : answer.pdatalen ≠ args.datav.length := by omega
        simp [hpos, hcnt, hshort, hnot]
    · rw [hnil, List.length_nil] at hle
      have hpos : ¬ 0 < answer.pdatalen := by omega
      have hcase : answer.pdatalen = -1 ∨ answer.pdatalen = 0 := by omega
      by_cases hpacket : 0 < packet.length
      · rcases hcase with hp | hp <;> simp [hp, hcnt, hnil, hfin, hpacket]
      · simp [hpos, hcnt, hpacket, hnot]

theorem not_covers_of_missesFin {answer : WritevAnswer} {args : WritevArgs} (h : answer.missesFin args = true) :
    answer.covers args = false := by
  unfold WritevAnswer.missesFin at h
  unfold WritevAnswer.covers
  cases hres : answer.result with
  | error rv => rfl
  | ok packet =>
    simp only [hres, decide_eq_true_eq] at h
    have hne : answer.pdatalen ≠ args.datav.length := by omega
    simp [hne]

theorem SendMove.finFlushed {tr : ClientTrace} {c : Client} {ref : Nat} {s : QuicStream} {e : Event}
    {acc fr : List UInt8} {ff : Bool} {ak : Nat} {s' : QuicStream} (h : SendMove c ref s e acc fr ff ak s')
    (hk : FinContract tr c e) (ha : FinAnswered tr c e) : s'.finFlushed = (s.finFlushed || ff) := by
  cases h with
  | idle hs => simp [hs.finFlushed]
  | accept => simp [QuicStream.enqueued]
  | frame buffer answer hb hpick ho =>
    have hsound : answer.sound c.writevArgs = true := hk.2
    simp only [FinAnswered, answersFin, hb, decide_false, Bool.false_or, Bool.not_eq_true'] at ha
    rw [writevArgs_of_pick hpick] at hsound ha
    rw [afterWritev_finFlushed ho hsound, ha, (sendOffer_cases ho).1, Bool.or_false, Bool.false_or]
  | ack => simp [QuicStream.ackedStreamDataOffset]

theorem FinExact.of_answered {tr : ClientTrace} {c : Client} {e : Event} {r : Reply} {c' : Client}
    (hrun : Reach FinContract tr c) (h : FinExact c) (hk : FinContract tr c e) (hs : step c e = some (r, c'))
    (ha : FinAnswered tr c e) : FinExact c' := by
  intro ref s' hs'
  have hiff : s'.finFlushed = true ↔ finFramed c'.calls s'.streamId = true := by
    rcases (step_after hs).get_inv hs' with ⟨s, hget, -⟩ | ⟨rfl, id, ho, rfl⟩
    · obtain ⟨s'', hs'', hm⟩ := step_send (hrun.registered FinContract.fresh) hs hget
      obtain rfl : s'' = s' := by simpa [hs'] using hs''.symm
      rw [hm.finFlushed hk ha, hm.streamId, (step_after hs).calls, finFramed_append]
      simp only [Bool.or_eq_true, (h ref s hget).1]
    · obtain ⟨-, -, -, hno⟩ := hrun.opened FinContract.fresh hk hs ho
      rw [show (quicStreamNew id).streamId = id from rfl, hno]
      simp [quicStreamNew]
  refine ⟨hiff, fun hf hnot => sendOffer_of_finSent hf ?_⟩
  cases hfl : s'.finFlushed with
  | false => rfl
  | true => rw [hiff.1 hfl] at hnot; cases hnot

/-- After a packet that misses the FIN it was asked for, the stream is marked
flushed and no FIN is framed. -/
theorem FinExact.of_missed {tr : ClientTrace} {c : Client} {e : Event} {r : Reply} {c' : Client}
    (h : FinExact c) (hk : FinContract tr c e) (hs : step c e = some (r, c')) (h' : FinExact c') :
    FinAnswered tr c e := by
  cases e with
  | writePkt buffer answer =>
    simp only [FinAnswered, answersFin, Bool.or_eq_true, decide_eq_true_eq, Bool.not_eq_true']
    by_cases hb : buffer = some .other
    · exact .inl hb
    refine .inr ?_
    cases hmiss : answer.missesFin c.writevArgs with
    | false => rfl
    | true =>
      have hsound : answer.sound c.writevArgs = true := hk.2
      have hafter := step_after hs
      cases hpick : quicClientPickSendStream c with
      | none =>
        rw [show c.writevArgs = .connOnly by simp [Client.writevArgs, hpick]] at hmiss
        unfold WritevAnswer.missesFin at hmiss
        split at hmiss <;> simp [WritevArgs.connOnly] at hmiss
      | some sel =>
        obtain ⟨ref, args⟩ := sel
        obtain ⟨-, s, hget, ho⟩ := pick_spec hpick
        rw [writevArgs_of_pick hpick] at hmiss hsound
        have hs' := hafter.get hget
        rw [if_pos (by simp [Event.target, hb, hpick]), update_writePkt ho] at hs'
        have hflushed : (s.afterWritev args answer).finFlushed = true := by
          rw [afterWritev_finFlushed ho hsound, hmiss, Bool.or_true]
        have hold : finFramed c.calls s.streamId = false := by
          cases hff : finFramed c.calls s.streamId with
          | false => rfl
          | true => rw [← (sendOffer_cases ho).1, (h ref s hget).1.2 hff]
        have hnew : finFramed ((Event.writePkt buffer answer).newCalls c) s.streamId = false := by
          rw [← sendOffer_streamId ho, (writePkt_framed answer hpick hb).2, not_covers_of_missesFin hmiss,
            Bool.and_false]
        have hff := (h' ref _ hs').1.1 hflushed
        rw [afterWritev_streamId, hafter.calls, finFramed_append, hold, hnew] at hff
        cases hff
  | _ => rfl

/-- **FIN is lost exactly there.** Along a run `fin_flushed` says that FIN
was framed in every state if and only if no packet misses the FIN it was
asked for. -/
theorem finExact_everywhere_iff {tr c} (h : Reach FinContract tr c) :
    (∀ tr₁ c₁, tr₁ <+: tr → Reach FinContract tr₁ c₁ → FinExact c₁) ↔
      Reach (FinContract.and FinAnswered) tr c := by
  refine Steps.everywhere_iff (P := fun _ c => FinExact c) h ?_ ?_
  · intro ref s hs
    simp at hs
  · intro tr c e r c' hrun hP hk hs
    exact ⟨fun hP' => hP.of_missed hk hs hP', fun ha => hP.of_answered hrun hk hs ha⟩

/-- FIN goes out with the last data, after a packet without a STREAM frame. -/
def finRun : ClientTrace × Client :=
  run step FinContract
    [.openBidiStream (.ok 0),
     .write 0 (.ofByte 1) true 100 100,
     .writePkt none ⟨.ok [64], -1⟩,
     .writePkt none ⟨.ok [65], 1⟩] [] {}

theorem finExact_everywhere_iff_finRun :
    (∀ tr₁ c₁, tr₁ <+: finRun.1 → Reach FinContract tr₁ c₁ → FinExact c₁) ↔
      Reach (FinContract.and FinAnswered) finRun.1 finRun.2 :=
  finExact_everywhere_iff (Steps.of_run (by decide))

/-- FIN alone is offered, and a packet with an ACK only comes back. -/
def lostFinRun : ClientTrace × Client :=
  run step FinContract [.openBidiStream (.ok 0), .closeWrite 0, .writePkt none ⟨.ok [64], -1⟩] [] {}

theorem lostFinRun_not_finExact : ¬ ∀ tr c, Reach FinContract tr c → FinExact c := by
  intro h
  have hexact := h lostFinRun.1 lostFinRun.2 (Steps.of_run (by decide))
  exact absurd ((hexact 0 _ rfl).1.1 rfl) (by decide)

end QuicRuby

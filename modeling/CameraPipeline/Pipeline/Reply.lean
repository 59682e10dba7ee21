import CameraPipeline.Pipeline.Independence

/-!
# The reply of a run

A run of `camera_MSN2_main` up to the transfer. The camera goes on to the transfer exactly when the
reads after the request yield a reply that passes the checks within the poll limits, and then with
that reply's fields and not one byte more.

## Main definitions

* `RingKept`: the ring is as `rb_init` left it, as long as nothing has been written since

## Main results

* `ringKept_step`: every step of the pipeline keeps such a ring
* `sameHeader_of_replied`: the result depends only on the replies the reads yield
* `reply_parsed_exactly`: the whole run, over every interleaving with `hello_main`
-/

namespace CameraPipeline

open Data Systems

/-- The ring is as `rb_init` left it, as long as nothing has been written since. -/
def RingKept (w : World) : Prop := (tally w.calls).writes = some 0 → w.ring = rbInit

/-- **Every step of the pipeline keeps the ring** as long as nothing is written to it. -/
theorem ringKept_step {α : Type} {o : Oracle} {s s' : CamProg α × World} {l : Option Unit}
    (hs : RingKept s.2) (h : pipeline o s l = some s') : RingKept s'.2 := by
  refine Prog.sched_keeps (I := RingKept) ?_ ?_ hs h
  · intro w c r w' hw hc
    have htally := tally_handle hc
    obtain ⟨-, rfl⟩ := handle_eq_some hc
    rw [RingKept, htally]
    cases c with
    | rbInit => exact fun _ => rfl
    | rbWrite chunk =>
      intro hwrites
      obtain ⟨k, -, hk⟩ := Option.map_eq_some_iff.mp hwrites
      exact absurd hk (Nat.succ_ne_zero k)
    | write v =>
      rw [Tally.add]
      split <;> exact hw
    | _ => exact hw
  · -- `hello_main` finds nothing to read
    intro w l w' hw hturn hwrites
    rw [calls_helloStep hturn] at hwrites
    exact ring_helloStep (hw hwrites) hturn

/-- Reads that yield the same replies give the same result. -/
theorem sameHeader_of_replied {reads reads' : ℕ → Option UInt8}
    {a a' : Option Header × Buf metaBufSize} {t t' u u' : Tally}
    (h : Replied reads t a t') (h' : Replied reads' u a' u')
    (hsame : ∀ rep : Reply, (∃ n, Timely reads ackPolls sizePolls rep.bytes n) ↔
      ∃ n, Timely reads' ackPolls sizePolls rep.bytes n) : SameHeader a a' := by
  rcases h with ⟨rep, n, hrep, rfl, -⟩ | ⟨hno, hnone, -⟩
  · obtain ⟨n', hrep'⟩ := (hsame rep).mp ⟨n, hrep⟩
    rcases h' with ⟨rep', m, hrep'', rfl, -⟩ | ⟨hno', -, -⟩
    · obtain ⟨rfl, -⟩ := Reply.unique hrep' hrep''
      exact ⟨rfl, fun _ => rfl⟩
    · exact absurd hrep' (hno' rep n')
  · rcases h' with ⟨rep', m, hrep', -, -⟩ | ⟨-, hnone', -⟩
    · obtain ⟨n, hrep⟩ := (hsame rep').mpr ⟨m, hrep'⟩
      exact absurd hrep (hno rep' n)
    · exact ⟨hnone.trans hnone'.symm, fun h => absurd hnone h⟩

/-- **The reply is decoded exactly, and all or nothing.** Take any run of `camera_MSN2_main`,
interleaved with `hello_main` in any way, that has sent `CMD_CAPTURE`, and any sequence of results
for the reads after it.

When the reads yield a reply that passes the checks, within the poll limits and as the first `n` of
them, the run comes to the transfer with the fields of that reply, its metadata followed by zeros in
`meta_buf`, and `n` reads made. When they yield none, it returns `-1` with the UART closed once, no
SPI exchange made, and the ring as `rb_init` left it. And sequences that yield the same bytes within
the poll limits give the same result. -/
theorem reply_parsed_exactly (reads : ℕ → Option UInt8) (o : Oracle) (st : Statics) {w w' : World}
    {ls : List (Option Unit)} {p : CamProg (Int × Statics)} (hw : w.log = [])
    (hrun : run (pipeline (withReply reads o)) (cameraMSN2Main st, w) ls = some (p, w'))
    (hsent : .write cmdCapture ∈ w'.calls) :
    (∀ (rep : Reply) (n : ℕ), Timely reads ackPolls sizePolls rep.bytes n →
      Comes (pipeline (withReply reads o)) (cameraMSN2Main st, w) ls fun s =>
        s.1 = finishRun { st with metaBuf := rep.metaBuf } rep.header ∧
          (tally s.2.calls).reads = some n) ∧
    ((∀ (rep : Reply) (n : ℕ), ¬ Timely reads ackPolls sizePolls rep.bytes n) →
      Comes (pipeline (withReply reads o)) (cameraMSN2Main st, w) ls fun s =>
        (∃ st', s.1 = .ret (-1, st')) ∧ (tally s.2.calls).closes = 1 ∧
          (tally s.2.calls).exchanges = 0 ∧ s.2.ring = rbInit) ∧
    ∀ reads', SameSymbols reads reads' → WithinLimits reads ackPolls sizePolls →
      WithinLimits reads' ackPolls sizePolls →
        ∀ a a', RequestGave reads a → RequestGave reads' a' → SameHeader a a' := by
  obtain ⟨ls₁, ls₂, w₁, rfl, hreach, ht, hrest⟩ :=
    exists_request (f := continueRun st) (fun _ => ⟨_, rfl⟩) hw hrun hsent
  have hcomes := Comes.after hreach
    ((wp_captureReply (t := tally w₁.calls) st.metaBuf).comes (fixed_view tally) hrest)
  have hkept : RingKept w := fun hwrites => by
    rw [World.calls, hw] at hwrites
    cases hwrites
  refine ⟨fun rep n hrep => hcomes.mono ?_, fun hno => ?_, ?_⟩
  · rintro ⟨p, w₂⟩ ⟨a, rfl, hreplied⟩
    rcases hreplied with ⟨rep', m, hrep', rfl, ht'⟩ | ⟨hno, -, -⟩
    · obtain ⟨rfl, rfl⟩ := Reply.unique hrep hrep'
      exact ⟨rfl, congrArg Tally.reads ht'⟩
    · exact absurd hrep (hno rep n)
  · refine (hcomes.and (I := fun s => RingKept s.2) hkept fun _ _ _ => ringKept_step).mono ?_
    rintro ⟨p, w₂⟩ ⟨⟨⟨res, metaBuf⟩, rfl, hreplied⟩, hring⟩
    rcases hreplied with ⟨rep', m, hrep', -, -⟩ | ⟨-, hnone, m, ht'⟩
    · exact absurd hrep' (hno rep' m)
    · obtain rfl : res = none := hnone
      rw [ht] at ht'
      exact ⟨⟨_, rfl⟩, congrArg Tally.closes ht', congrArg Tally.exchanges ht',
        hring (congrArg Tally.writes ht')⟩
  · -- the same bytes within the limits are the same replies
    intro reads' hsame hlimits hlimits' a a' ha ha'
    obtain ⟨t, t', hreplied⟩ := ha.replied
    obtain ⟨u, u', hreplied'⟩ := ha'.replied
    refine sameHeader_of_replied hreplied hreplied' fun rep => ⟨?_, ?_⟩
    · rintro ⟨n, hrep⟩
      exact hrep.transfer hsame.1 hlimits'
    · rintro ⟨n, hrep⟩
      exact hrep.transfer hsame.2 hlimits

/-- The camera goes on with these fields, and has made ten reads. -/
theorem gappedReply_parsed :
    Comes (pipeline (withReply gappedReads (scripted [none, none, some 0xAA])))
      (cameraMSN2Main Statics.zero, World.start 0) (List.replicate 22 none) fun s =>
        s.1 = finishRun { Statics.zero with metaBuf := gappedReply.metaBuf } ⟨3, 1⟩ ∧
          (tally s.2.calls).reads = some 10 := by
  refine (reply_parsed_exactly gappedReads (scripted [none, none, some 0xAA]) Statics.zero
    (w := World.start 0) rfl (show run _ _ (List.replicate 22 none) = some _ from rfl) ?_).1
      gappedReply 10 timely_gappedReply
  exact List.mem_of_getElem? (i := 21) rfl

end CameraPipeline

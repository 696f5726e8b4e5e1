import McpGateway.Gateway.Stream
import McpGateway.Js.JsonRoundTrip
import McpGateway.Js.NumberText
import Mathlib.Data.List.DropRight

/-!
# What a page is shown

A page that watches is sent the last events of its tenant that the gateway still
holds, then each event of its tenant that is published while it listens, once
and in order, and it reads back what was published.
-/

namespace McpGateway.Gateway

open Js Transition

def published (events : List StreamEvent) : List Json :=
  events.filterMap fun
    | .published event => some event
    | _ => none

def StreamEvent.ends (c : Nat) : StreamEvent → Bool
  | .closed c' => c' == c
  | .streamClosed => true
  | _ => false

def whileListening (c : Nat) (events : List StreamEvent) : List StreamEvent :=
  events.takeWhile fun e => !e.ends c

def ofTenant (tenantId : JsString) (events : List Json) : List Json :=
  events.filter fun event => tenantOf event == some tenantId

/-- The events a page is sent that connects after some events and is closed among others. -/
def delivered (historySize : Nat) (c : Nat) (tenantId : JsString) (before after : List StreamEvent) :
    List Json :=
  (ofTenant tenantId ((published before).rtake historySize)).rtake 30 ++
    ofTenant tenantId (published (whileListening c after))

section
variable {numberText : ℚ → JsString} {historySize : Nat} {s s' : LiveStream} {c : Nat}
  {tenantId : JsString}

theorem rtake_rtake_snoc {α : Type} (n : Nat) (xs : List α) (x : α) :
    (xs.rtake n ++ [x]).rtake n = (xs ++ [x]).rtake n := by
  unfold List.rtake
  rw [List.drop_append, List.drop_append, List.drop_drop]
  simp only [List.length_append, List.length_drop, List.length_singleton]
  congr 2 <;> omega

theorem recent_eq (history : List Json) (htenant : tenantId ≠ []) :
    recent history 30 tenantId = (ofTenant tenantId history).rtake 30 := by
  unfold recent sliceFromEnd
  rw [if_neg htenant, if_neg (by decide)]
  rfl

-- ---------------------------------------------------------------------------
-- What is written
-- ---------------------------------------------------------------------------

def LiveStream.listening (s : LiveStream) (c : Nat) : List (Nat × JsString) :=
  s.listeners.filter fun listener => listener.1 == c

def frames (numberText : ℚ → JsString) (event : Json) (listeners : List (Nat × JsString)) :
    JsString :=
  listeners.flatMap fun listener =>
    if tenantOf event = some listener.2 then eventFrame numberText event else []

theorem notify_eq (event : Json) (listener : Nat × JsString) (s : LiveStream) :
    s.notify numberText event listener =
      { s with written := fun c => s.written c ++
          frames numberText event ([listener].filter fun listener => listener.1 == c) } := by
  have hwritten : (fun c => s.written c ++
        frames numberText event ([listener].filter fun listener => listener.1 == c)) =
      (s.notify numberText event listener).written := by
    funext c
    unfold LiveStream.notify LiveStream.send LiveStream.write frames
    by_cases hc : listener.1 = c
    · subst hc
      by_cases htenant : tenantOf event = some listener.2 <;> simp [htenant]
    · by_cases htenant : tenantOf event = some listener.2 <;> simp [htenant, hc, Ne.symm hc]
  rw [hwritten]
  unfold LiveStream.notify
  split <;> rfl

theorem foldl_notify (event : Json) (listeners : List (Nat × JsString)) (s : LiveStream) :
    listeners.foldl (LiveStream.notify numberText event) s =
      { s with written := fun c => s.written c ++
          frames numberText event (listeners.filter fun listener => listener.1 == c) } := by
  induction listeners generalizing s with
  | nil => simp [frames]
  | cons listener listeners ih =>
    rw [List.foldl_cons, ih]
    rw [notify_eq]
    congr 1
    funext c
    have hsplit : (listener :: listeners).filter (fun listener => listener.1 == c) =
        [listener].filter (fun listener => listener.1 == c) ++
          listeners.filter fun listener => listener.1 == c :=
      List.filter_append [listener] listeners
    rw [hsplit]
    simp [frames, List.append_assoc]

theorem publish_eq (s : LiveStream) (event : Json) :
    s.publish numberText historySize event =
      { s with
        history := (s.history ++ [event]).rtake historySize
        written := fun c => s.written c ++ frames numberText event (s.listening c) } := by
  unfold LiveStream.publish
  rw [foldl_notify]
  congr 1
  dsimp only
  split
  · rfl
  · unfold List.rtake
    rw [Nat.sub_eq_zero_of_le (Nat.le_of_not_lt ‹_›), List.drop_zero]

theorem foldl_send (c : Nat) (events : List Json) (s : LiveStream) :
    events.foldl (fun s event => s.send numberText c event) s =
      s.write c (events.flatMap (eventFrame numberText)) := by
  induction events generalizing s with
  | nil => simp [LiveStream.write]
  | cons event events ih =>
    rw [List.foldl_cons, ih]
    unfold LiveStream.send LiveStream.write
    simp [List.append_assoc]

-- ---------------------------------------------------------------------------
-- What is read
-- ---------------------------------------------------------------------------

theorem oneLine_of_printable {text : JsString} (h : Json.Printable text) :
    EventSource.OneLine text :=
  ⟨fun hmem => absurd (h _ hmem) (by decide), fun hmem => absurd (h _ hmem) (by decide)⟩

def ReadsAs (numberText : ℚ → JsString) (written : JsString) (events : List Json) : Prop :=
  EventSource.receive {} written = { messages := events.map (Json.stringify numberText) }

theorem ReadsAs.frame (hnum : NumberText numberText) {written : JsString} {events : List Json}
    (h : ReadsAs numberText written events) (event : Json) :
    ReadsAs numberText (written ++ eventFrame numberText event) (events ++ [event]) := by
  unfold ReadsAs eventFrame at *
  rw [EventSource.receive_append, h,
    EventSource.receive_message (oneLine_of_printable (Json.stringify_printable hnum event)),
    List.map_append]
  rfl

theorem ReadsAs.keepAlive {written : JsString} {events : List Json}
    (h : ReadsAs numberText written events) :
    ReadsAs numberText (written ++ keepAliveFrame) events := by
  unfold ReadsAs at *
  have hframe : keepAliveFrame = colon :: js " keep-alive" ++ [lineFeed, lineFeed] := by decide
  rw [EventSource.receive_append, h, hframe,
    EventSource.receive_comment ⟨by decide, by decide⟩]

theorem readsAs_frames (hnum : NumberText numberText) (events : List Json) :
    ReadsAs numberText (events.flatMap (eventFrame numberText)) events := by
  induction events using List.reverseRecOn with
  | nil => rfl
  | append_singleton events event ih =>
    rw [List.flatMap_append]
    simpa using ih.frame hnum event

theorem ReadsAs.shown (hnum : NumberText numberText) {written : JsString} {events : List Json}
    (h : ReadsAs numberText written events) (hreadable : ∀ e ∈ events, Json.Readable numberText e) :
    pageEvents written = events.reverse.take 200 := by
  unfold ReadsAs at h
  unfold pageEvents
  rw [h]
  clear h
  induction events using List.reverseRecOn with
  | nil => rfl
  | append_singleton events event ih =>
    rw [List.forall_mem_append] at hreadable
    have hparse := Json.parse_stringify hnum (hreadable.2 event List.mem_cons_self)
    have hshown := ih hreadable.1
    dsimp only at hshown ⊢
    rw [List.map_append, List.foldl_append, hshown]
    simp [onMessage, hparse, List.take_take]

-- ---------------------------------------------------------------------------
-- Before a page connects
-- ---------------------------------------------------------------------------

/-- The stream holds the last events, and nothing is written to a request to come. -/
structure Holds (historySize : Nat) (events : List StreamEvent) (s : LiveStream) : Prop where
  history : s.history = (published events).rtake historySize
  silent : ∀ c, c ∉ s.requests → s.written c = [] ∧ s.listening c = [] ∧ c ∉ s.opened

theorem holds_created : Holds historySize [] .created where
  history := by simp [LiveStream.created, published]
  silent := by
    intro c _
    exact ⟨rfl, rfl, List.not_mem_nil⟩

theorem published_snoc (events : List StreamEvent) (e : StreamEvent) :
    published (events ++ [e]) = published events ++ published [e] :=
  List.filterMap_append ..

theorem published_quiet {events : List StreamEvent} {e : StreamEvent} (h : published [e] = []) :
    published (events ++ [e]) = published events := by
  rw [published_snoc, h, List.append_nil]

theorem Holds.step {events : List StreamEvent} {e : StreamEvent} (h : Holds historySize events s)
    (hstep : s.step numberText historySize e = some s') : Holds historySize (events ++ [e]) s' := by
  cases e with
  | published event =>
    cases hstep
    rw [publish_eq]
    refine ⟨?_, fun c hc => ?_⟩
    · dsimp only
      rw [h.history, published_snoc]
      exact rtake_rtake_snoc historySize (published events) event
    · obtain ⟨hwritten, hlistening, hopened⟩ := h.silent c hc
      refine ⟨?_, hlistening, hopened⟩
      dsimp only
      rw [hwritten, hlistening]
      rfl
  | connected c tenantId =>
    simp only [LiveStream.step] at hstep
    split at hstep
    · cases hstep
    · cases hstep
      unfold LiveStream.connect
      rw [foldl_send]
      refine ⟨?_, fun c' hc' => ?_⟩
      · rw [published_quiet rfl]
        exact h.history
      · obtain ⟨hne, hc'⟩ := not_or.mp (mt List.mem_cons.mpr hc')
        obtain ⟨hwritten, hlistening, hopened⟩ := h.silent c' hc'
        refine ⟨?_, ?_, ?_⟩
        · exact (Function.update_of_ne hne ..).trans hwritten
        · unfold LiveStream.listening at hlistening ⊢
          simpa [List.filter_append, LiveStream.write, Ne.symm hne] using hlistening
        · simpa [LiveStream.write, hne] using hopened
  | keptAlive c =>
    simp only [LiveStream.step] at hstep
    split at hstep
    · next hmem =>
      cases hstep
      refine ⟨?_, fun c' hc' => ?_⟩
      · rw [published_quiet rfl]
        exact h.history
      · obtain ⟨hwritten, hlistening, hopened⟩ := h.silent c' hc'
        refine ⟨?_, hlistening, hopened⟩
        have hne : c' ≠ c := by
          rintro rfl
          exact hopened hmem
        exact (Function.update_of_ne hne ..).trans hwritten
    · cases hstep
  | closed c =>
    simp only [LiveStream.step] at hstep
    split at hstep
    · cases hstep
      refine ⟨?_, fun c' hc' => ?_⟩
      · rw [published_quiet rfl]
        exact h.history
      · obtain ⟨hwritten, hlistening, hopened⟩ := h.silent c' hc'
        refine ⟨hwritten, ?_, fun hmem => hopened (List.mem_of_mem_filter hmem)⟩
        unfold LiveStream.listening LiveStream.close at *
        dsimp only
        rw [List.filter_comm, hlistening]
        rfl
    · cases hstep
  | streamClosed =>
    cases hstep
    refine ⟨?_, fun c hc => ?_⟩
    · rw [published_quiet rfl]
      exact h.history
    · exact ⟨(h.silent c hc).1, rfl, (h.silent c hc).2.2⟩

-- ---------------------------------------------------------------------------
-- While it is connected
-- ---------------------------------------------------------------------------

/-- The request has been sent the events of its tenant since it came, while it listened. -/
structure Watches (numberText : ℚ → JsString) (c : Nat) (tenantId : JsString) (replayed : List Json)
    (events : List StreamEvent) (s : LiveStream) : Prop where
  known : c ∈ s.requests
  listening : s.listening c = if events.any (StreamEvent.ends c) then [] else [(c, tenantId)]
  reads : ReadsAs numberText (s.written c)
    (replayed ++ ofTenant tenantId (published (whileListening c events)))

theorem watches_connected (hnum : NumberText numberText) {events : List StreamEvent}
    (h : Holds historySize events s) (htenant : tenantId ≠ [])
    (hstep : s.step numberText historySize (.connected c tenantId) = some s') :
    Watches numberText c tenantId
      ((ofTenant tenantId ((published events).rtake historySize)).rtake 30) [] s' := by
  simp only [LiveStream.step] at hstep
  split at hstep
  · cases hstep
  · next hnew =>
    cases hstep
    obtain ⟨hwritten, hlistening, -⟩ := h.silent c hnew
    unfold LiveStream.connect
    rw [foldl_send, recent_eq _ htenant, h.history]
    refine ⟨List.mem_cons_self, ?_, ?_⟩
    · unfold LiveStream.listening at hlistening ⊢
      simpa [List.filter_append, LiveStream.write] using hlistening
    · have hreads := readsAs_frames hnum
        ((ofTenant tenantId ((published events).rtake historySize)).rtake 30)
      simpa [LiveStream.write, hwritten, published, whileListening, ofTenant] using hreads

theorem whileListening_snoc (c : Nat) (events : List StreamEvent) (e : StreamEvent) :
    whileListening c (events ++ [e]) =
      if (events ++ [e]).any (StreamEvent.ends c) then whileListening c events
      else events ++ [e] := by
  unfold whileListening
  rw [List.takeWhile_append]
  by_cases hany : events.any (StreamEvent.ends c)
  · obtain ⟨x, hx, hends⟩ := List.any_eq_true.mp hany
    rw [if_neg, if_pos (by rw [List.any_append, hany, Bool.true_or])]
    intro hlength
    have hall := List.takeWhile_eq_self_iff.mp (List.IsPrefix.eq_of_length
      (List.takeWhile_prefix _) hlength)
    exact absurd (hall x hx) (by simp [hends])
  · have hall : ∀ x ∈ events, (!x.ends c) = true := by simpa using hany
    rw [if_pos (by rw [List.takeWhile_eq_self_iff.mpr hall]), List.any_append,
      Bool.eq_false_iff.mpr hany, List.takeWhile_eq_self_iff.mpr hall]
    cases hends : e.ends c <;> simp [hends]

theorem whileListening_all {events : List StreamEvent} (h : ¬ events.any (StreamEvent.ends c)) :
    whileListening c events = events := by
  refine List.takeWhile_eq_self_iff.mpr fun x hx => ?_
  have hends := Bool.eq_false_iff.mpr fun hends => h (List.any_eq_true.mpr ⟨x, hx, hends⟩)
  rw [hends]
  rfl

theorem heard_quiet {events : List StreamEvent} {e : StreamEvent} (h : published [e] = []) :
    published (whileListening c (events ++ [e])) = published (whileListening c events) := by
  rw [whileListening_snoc]
  split
  · rfl
  · next hany =>
    rw [published_quiet h, whileListening_all]
    intro hbefore
    rw [List.any_append, hbefore] at hany
    exact hany rfl

theorem Watches.step (hnum : NumberText numberText) {replayed : List Json}
    {events : List StreamEvent} {e : StreamEvent}
    (h : Watches numberText c tenantId replayed events s)
    (hstep : s.step numberText historySize e = some s') :
    Watches numberText c tenantId replayed (events ++ [e]) s' := by
  obtain ⟨hknown, hlistening, hreads⟩ := h
  have hany : (events ++ [e]).any (StreamEvent.ends c) =
      (events.any (StreamEvent.ends c) || e.ends c) := by simp
  cases e with
  | published event =>
    cases hstep
    have hsame : (events ++ [StreamEvent.published event]).any (StreamEvent.ends c) =
        events.any (StreamEvent.ends c) := hany.trans (Bool.or_false _)
    rw [publish_eq]
    refine ⟨hknown, ?_, ?_⟩
    · rw [hsame]
      exact hlistening
    · dsimp only
      rw [hlistening, whileListening_snoc, hsame]
      split
      · simpa [frames] using hreads
      · next hends =>
        rw [whileListening_all hends] at hreads
        rw [published_snoc]
        by_cases htenant : tenantOf event = some tenantId
        · have hframe := hreads.frame hnum event
          simpa [frames, htenant, ofTenant, published] using hframe
        · simpa [frames, htenant, ofTenant, published] using hreads
  | connected c' tenantId' =>
    simp only [LiveStream.step] at hstep
    split at hstep
    · cases hstep
    · next hnew =>
      cases hstep
      have hne : c ≠ c' := by
        rintro rfl
        exact hnew hknown
      unfold LiveStream.connect
      rw [foldl_send]
      refine ⟨List.mem_cons_of_mem _ hknown, ?_, ?_⟩
      · have hends : (StreamEvent.connected c' tenantId').ends c = false := rfl
        have hother : (s.listeners ++ [(c', tenantId')]).filter (fun listener => listener.1 == c) =
            s.listening c := by simp [LiveStream.listening, List.filter_append, hne.symm]
        rw [hany, hends, Bool.or_false]
        exact hother.trans hlistening
      · rw [heard_quiet rfl]
        have hwritten : (s.write c' ((recent s.history 30 tenantId').flatMap
            (eventFrame numberText))).written c = s.written c := Function.update_of_ne hne ..
        dsimp only
        rw [hwritten]
        exact hreads
  | keptAlive c' =>
    simp only [LiveStream.step] at hstep
    split at hstep
    · cases hstep
      refine ⟨hknown, ?_, ?_⟩
      · have hends : (StreamEvent.keptAlive c').ends c = false := rfl
        rw [hany, hends, Bool.or_false]
        exact hlistening
      · rw [heard_quiet rfl]
        by_cases hc : c = c'
        · subst hc
          have hwritten : (s.write c keepAliveFrame).written c = s.written c ++ keepAliveFrame :=
            Function.update_self ..
          rw [hwritten]
          exact hreads.keepAlive
        · have hwritten : (s.write c' keepAliveFrame).written c = s.written c :=
            Function.update_of_ne hc ..
          rw [hwritten]
          exact hreads
    · cases hstep
  | closed c' =>
    simp only [LiveStream.step] at hstep
    split at hstep
    · cases hstep
      refine ⟨hknown, ?_, ?_⟩
      · unfold LiveStream.listening LiveStream.close at *
        dsimp only
        rw [List.filter_comm, hlistening, hany, StreamEvent.ends]
        cases events.any (StreamEvent.ends c) with
        | true => rfl
        | false =>
          by_cases hc : c' = c
          · simp [hc]
          · simp [beq_false_of_ne hc, Ne.symm hc]
      · rw [heard_quiet rfl]
        exact hreads
    · cases hstep
  | streamClosed =>
    cases hstep
    refine ⟨hknown, ?_, ?_⟩
    · rw [hany, StreamEvent.ends, Bool.or_true]
      rfl
    · rw [heard_quiet rfl]
      exact hreads

end

/-- What a page of a tenant is sent, in every run: `delivered`, read back by the page as it
was published and shown with the last in front. -/
theorem live_view {numberText : ℚ → JsString} (hnum : NumberText numberText) {historySize c : Nat}
    {tenantId : JsString} {before after : List StreamEvent} {s : LiveStream}
    (htenant : tenantId ≠ [])
    (hreadable : ∀ event ∈ published (before ++ after), Json.Readable numberText event)
    (h : run (LiveStream.step numberText historySize) .created
      (before ++ .connected c tenantId :: after) = some s) :
    (EventSource.receive {} (s.written c)).messages.map Json.parse =
        (delivered historySize c tenantId before after).map some ∧
      pageEvents (s.written c) = (delivered historySize c tenantId before after).reverse.take 200 := by
  rw [run_append] at h
  obtain ⟨s₁, h₁, h⟩ := Option.bind_eq_some_iff.mp h
  obtain ⟨s₂, hconnect, h₂⟩ := run_cons_some.mp h
  have hholds : Holds historySize ([] ++ before) s₁ :=
    run_history_along (Holds historySize) (fun _ _ => True)
      (fun _ _ _ _ hI _ hstep => hI.step hstep) holds_created (along_of_forall fun _ _ => trivial) h₁
  have hwatches := run_history_along
    (Watches numberText c tenantId
      ((ofTenant tenantId ((published before).rtake historySize)).rtake 30))
    (fun _ _ => True) (fun _ _ _ _ hI _ hstep => hI.step hnum hstep)
    (watches_connected hnum hholds htenant hconnect) (along_of_forall fun _ _ => trivial) h₂
  have hreads : ReadsAs numberText (s.written c) (delivered historySize c tenantId before after) :=
    hwatches.reads
  have hall : ∀ event ∈ delivered historySize c tenantId before after,
      Json.Readable numberText event := by
    intro event hevent
    refine hreadable event ?_
    unfold published
    rw [List.filterMap_append, List.mem_append]
    rcases List.mem_append.mp hevent with hevent | hevent
    · left
      have hmem := List.mem_of_mem_filter (List.mem_of_mem_drop hevent)
      exact List.mem_of_mem_drop hmem
    · right
      have hmem := List.mem_of_mem_filter hevent
      exact (((List.takeWhile_prefix _).sublist.filterMap _).subset hmem)
  refine ⟨?_, hreads.shown hnum hall⟩
  unfold ReadsAs at hreads
  rw [hreads, List.map_map]
  exact List.map_congr_left fun event hevent => Json.parse_stringify hnum (hall event hevent)

def eventOf (tenantId tool : String) : Json :=
  .object [(js "tenantId", .string (js tenantId)), (js "tool", .string (js tool))]

private def beforePage : List StreamEvent :=
  [.published (eventOf "acme" "sf.query"), .published (eventOf "globex" "pg.query")]

private def afterPage : List StreamEvent :=
  [.published (eventOf "acme" "policy.evaluate"), .published (eventOf "globex" "sf.query"),
    .keptAlive 0, .closed 0, .published (eventOf "acme" "pg.query")]

/-- The page of one tenant is not sent the events of the other, nor one after it is closed. -/
theorem live_view_own_tenant :
    ∃ s, run (LiveStream.step fractionText 200) .created
        (beforePage ++ .connected 0 (js "acme") :: afterPage) = some s ∧
      pageEvents (s.written 0) = [eventOf "acme" "policy.evaluate", eventOf "acme" "sf.query"] := by
  have hkeys : [js "tenantId", js "tool"].Nodup := by decide
  have hreadable : ∀ event ∈ published (beforePage ++ afterPage),
      Json.Readable fractionText event := by
    simp [published, beforePage, afterPage, eventOf, Json.Readable, Json.Readable.ReadableProps,
      hkeys]
  have h := @live_view fractionText numberText_fractionText 200 0 (js "acme") beforePage afterPage _
    (by decide) hreadable rfl
  exact ⟨_, rfl, h.2.trans rfl⟩

end McpGateway.Gateway

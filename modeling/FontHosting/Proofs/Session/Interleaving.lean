import FontHosting.Proofs.Session.Reference

/-!
# Requests in flight

A request for a stylesheet is taken up by `start`, which reads the font files, and ended by
`finish`, which keeps what was made.  Here the two are moves of their own, with any other
operation between them, so several requests may be in flight at a time.

An invalidation drops stylesheets that are stored, and says nothing to a request in flight.
What such a request has read is therefore kept after the invalidation, as long as anybody
imports it (`finish_made_of_isImported`); `overtaken_request_keeps_older_content` is a run in
which that happens.  Nothing else is lost: the stylesheets that are stored after any run were
made by a request that is over, and nothing has invalidated them since its end
(`invalidation_is_lost_only_in_flight`).

The proof follows the last move of a run.

* A request that is taken up changes no stylesheet (`stylesheets_start`), and every request
  in flight was taken up by an earlier move (`exists_start`).
* A request that ends adds its own stylesheet and no other one (`finish_cases`).
* Every other operation only drops stylesheets, and none that it invalidates stays
  (`Keyed.kept_of_perform`).
-/

namespace FontHosting.Session

open Stylesheet (BelongsTo Collection Loaded Request key?)
open Stylesheet.Collection (Started)

/-! ## Runs with requests in flight -/

/-- Whether an operation is a whole request. -/
def Operation.isRequest : Operation → Bool
  | .load _ _ => true
  | _ => false

/-- One move of a run: a request is taken up or ended, or another operation takes place. -/
inductive Move where
  | start (world : Loader.World) (request : Request)
  /-- The request that the move of this number took up is ended. -/
  | finish (taken : Nat)
  | perform (operation : Operation) (hother : operation.isRequest = false)

/-- A request that was taken up. -/
structure Flight where
  /-- The number of the move that took it up. -/
  taken : Nat
  request : Request
  started : Started

/-- A session with the requests that are in flight. -/
structure Traffic where
  session : Session
  /-- The number of moves so far. -/
  clock : Nat
  flights : List Flight

namespace Traffic

/-- The session that has seen no module, and no request. -/
def new : Traffic := ⟨Session.empty, 0, []⟩

/-- What a move comes to.  The end of a request that is not in flight changes nothing. -/
def step (project : Project) (traffic : Traffic) : Move → Traffic
  | .start world request =>
      let (session, started) := traffic.session.start project world request
      ⟨session, traffic.clock + 1, traffic.flights ++ [⟨traffic.clock, request, started⟩]⟩
  | .finish taken =>
      match traffic.flights.find? fun flight => flight.taken == taken with
      | none => { traffic with clock := traffic.clock + 1 }
      | some flight =>
          ⟨(traffic.session.finish flight.request flight.started).session, traffic.clock + 1,
            traffic.flights.filter fun other => other.taken != taken⟩
  | .perform operation _ =>
      ⟨(traffic.session.perform project operation).session, traffic.clock + 1, traffic.flights⟩

end Traffic

/-- What a sequence of moves comes to. -/
def traffic (project : Project) (moves : List Move) : Traffic :=
  moves.foldl (Traffic.step project) .new

variable {project : Project} {session : Session}

theorem traffic_append (project : Project) (moves : List Move) (last : Move) :
    traffic project (moves ++ [last]) = (traffic project moves).step project last := by
  unfold traffic
  rw [List.foldl_append]
  rfl

theorem traffic_perform (project : Project) (operation : Operation)
    (hother : operation.isRequest = false) :
    (traffic project [.perform operation hother]).session = built project [operation] := rfl

theorem session_traffic_start (project : Project) (moves : List Move) (world : Loader.World)
    (request : Request) : (traffic project (moves ++ [.start world request])).session =
      ((traffic project moves).session.start project world request).1 := by
  rw [traffic_append]
  rfl

/-- To take up a request is to take it up in the collection. -/
theorem start_eq {world : Loader.World} {request : Request} {collection : Collection}
    {started : Started}
    (h : session.collection.start project.setup world request = (collection, started)) :
    session.start project world request = ({ session with collection }, started) := by
  unfold Session.start
  rw [h]

/-- A request that is taken up leaves the imports as they are. -/
theorem records_traffic_start (project : Project) (moves : List Move) (world : Loader.World)
    (request : Request) : (traffic project (moves ++ [.start world request])).session.records =
      (traffic project moves).session.records := by
  rw [session_traffic_start]
  rfl

theorem clock_step (traffic : Traffic) (move : Move) :
    (traffic.step project move).clock = traffic.clock + 1 := by
  cases move with
  | start world request => rfl
  | perform operation hother => rfl
  | finish taken =>
      simp only [Traffic.step]
      split <;> rfl

theorem clock_traffic (project : Project) (moves : List Move) :
    (traffic project moves).clock = moves.length := by
  induction moves using List.reverseRecOn with
  | nil => rfl
  | append_singleton moves last ih =>
      rw [traffic_append, clock_step, ih, List.length_append, List.length_singleton]

/-- What a request comes to that is taken up after some moves. -/
def startedAfter (project : Project) (before : List Move) (world : Loader.World)
    (request : Request) : Started :=
  ((traffic project before).session.start project world request).2

/-- **A request in flight was taken up by an earlier move**, the one of its number. -/
theorem exists_start {moves : List Move} {flight : Flight}
    (h : flight ∈ (traffic project moves).flights) :
    ∃ before world middle, moves = before ++ .start world flight.request :: middle ∧
      before.length = flight.taken ∧
      startedAfter project before world flight.request = flight.started := by
  induction moves using List.reverseRecOn with
  | nil => cases h
  | append_singleton moves last ih =>
      -- A request that was in flight before is taken up by the same move.
      have hearlier : flight ∈ (traffic project moves).flights →
          ∃ before world middle, moves ++ [last] = before ++ .start world flight.request :: middle ∧
            before.length = flight.taken ∧
            startedAfter project before world flight.request = flight.started := by
        intro hflight
        obtain ⟨before, world, middle, rfl, hflown⟩ := ih hflight
        exact ⟨before, world, middle ++ [last], by simp, hflown⟩
      rw [traffic_append] at h
      cases last with
      | start world request =>
          rcases List.mem_append.mp h with hflight | hflight
          · exact hearlier hflight
          · obtain rfl := List.mem_singleton.mp hflight
            exact ⟨moves, world, [], rfl, (clock_traffic project moves).symm, rfl⟩
      | finish taken =>
          simp only [Traffic.step] at h
          split at h
          · exact hearlier h
          · exact hearlier (List.mem_filter.mp h).1
      | perform operation hother => exact hearlier h

theorem step_finish (project : Project) (traffic : Traffic) (taken : Nat) :
    (traffic.step project (.finish taken)).session = traffic.session ∨
    ∃ flight ∈ traffic.flights, flight.taken = taken ∧
      (traffic.step project (.finish taken)).session =
        (traffic.session.finish flight.request flight.started).session := by
  simp only [Traffic.step]
  split
  · exact Or.inl rfl
  · rename_i flight hflight
    refine Or.inr ⟨flight, List.mem_of_find?_eq_some hflight, ?_, rfl⟩
    simpa using List.find?_some hflight

/-- **What every kind of move keeps holds after any run.** -/
theorem holds_traffic (holds : Session → Prop) (hempty : holds Session.empty)
    (hstart : ∀ session world request, holds session →
      holds (session.start project world request).1)
    (hperform : ∀ session operation, operation.isRequest = false → holds session →
      holds (session.perform project operation).session)
    (hfinish : ∀ session earlier world request started,
      (Session.start project world earlier request).2 = started → holds session →
        holds (session.finish request started).session)
    (moves : List Move) : holds (traffic project moves).session := by
  induction moves using List.reverseRecOn with
  | nil => exact hempty
  | append_singleton moves last ih =>
      rw [traffic_append]
      cases last with
      | start world request => exact hstart _ world request ih
      | perform operation hother => exact hperform _ operation hother ih
      | finish taken =>
          rcases step_finish project (traffic project moves) taken with
            hsame | ⟨flight, hflight, -, hfinished⟩
          · rwa [hsame]
          · rw [hfinished]
            obtain ⟨before, world, middle, -, -, hstarted⟩ := exists_start hflight
            exact hfinish _ _ world flight.request flight.started hstarted ih

/-! ## Keys

What is stored and what is recorded has a key that is its own, so dropping is exact. -/

/-- The keys of a session are their own. -/
structure Keyed (session : Session) : Prop where
  stored : ∀ key loaded, session.collection.stylesheets.get? key = some loaded →
    key? key = some key
  recorded : ∀ module record, session.HasRecord module record → key? record.key = some record.key

theorem hasRecord_settle {α : Type} (answer : α) {module : String} {record : Record} :
    (session.settle answer).session.HasRecord module record ↔ session.HasRecord module record := by
  unfold Session.settle HasRecord
  split <;> rfl

theorem not_hasRecord_reset {module : String} {record : Record} :
    ¬ session.reset.HasRecord module record := by
  rintro ⟨_, hget, -⟩
  cases hget

/-- Whatever the loader does, a request that is taken up changes no stylesheet. -/
theorem stylesheets_start (world : Loader.World) (request : Request) :
    (session.start project world request).1.collection.stylesheets =
      session.collection.stylesheets := by
  show (session.collection.start project.setup world request).1.stylesheets = _
  rcases Collection.start_cases project.setup world session.collection request with hstart |
    ⟨_, _, -, -, hstart⟩ | ⟨_, -, hstart⟩ |
    ⟨key, kind, registered, query, arguments, -, -, -, -, -, hstart⟩
  · rw [hstart]
  · rw [hstart]
  · rw [hstart]
  · have hannounced := (Collection.announce_frame session.collection kind registered).1
    rw [hstart]
    rcases Collection.run_cases project.setup world session.collection kind registered query
      arguments key request.isServer with ⟨_, hrun⟩ | ⟨_, _, -, -, hrun⟩ <;>
      rw [hrun] <;> exact hannounced

/-- The key of what a request makes is its own. -/
theorem isKey_of_made {world : Loader.World} {request : Request} {key : String} {loaded : Loaded}
    (h : (session.start project world request).2 = .made key loaded) : key? key = some key := by
  obtain ⟨_, _, _, _, -, -, hkey, -⟩ := Collection.made_start (Prod.ext rfl h)
  exact Stylesheet.key?_key hkey

theorem isKey_of_startedAfter {before : List Move} {world : Loader.World} {request : Request}
    {key : String} {loaded : Loaded}
    (h : startedAfter project before world request = .made key loaded) : key? key = some key :=
  isKey_of_made h

/-- The key of what a request finds is its own. -/
theorem isKey_of_kept {world : Loader.World} {request : Request} {key : String}
    {target : Stylesheet.Module}
    (h : (session.start project world request).2 = .kept key target) : key? key = some key :=
  Stylesheet.key?_key (Collection.kept_start (Prod.ext rfl h)).2.1

/-- A session with a stylesheet that was made for a request. -/
def keepMade (session : Session) (request : Request) (key : String) (loaded : Loaded) : Session :=
  { session with collection := session.collection.keep key request.environment loaded }

theorem get?_keepMade {request : Request} {key : String} {loaded : Loaded} (other : String) :
    (session.keepMade request key loaded).collection.stylesheets.get? other =
      if other = key then some loaded else session.collection.stylesheets.get? other :=
  Table.get?_insert _ _ _ _

/-- **What the end of a request can come to**: nothing, or it is received what is stored, or what
was made for it. -/
theorem finish_cases {earlier : Session} {world : Loader.World} {request : Request}
    (session : Session) {started : Started}
    (hstarted : (earlier.start project world request).2 = started) :
    (session.finish request started).session = session ∨
    (∃ key loaded, key? key = some key ∧
      session.collection.stylesheets.get? key = some loaded ∧
      (session.finish request started).session = (session.receive key loaded).session) ∨
    ∃ key loaded, key? key = some key ∧ started = .made key loaded ∧
      (session.finish request started).session =
        ((session.keepMade request key loaded).receive key loaded).session := by
  cases started with
  | unknown => exact Or.inl rfl
  | failed failure => exact Or.inl rfl
  | kept key target =>
      have hkey := isKey_of_kept hstarted
      cases hget : session.collection.stylesheets.get? key with
      | none =>
          -- It was dropped while the request was in flight.
          refine Or.inl ?_
          simp only [finish, finishFound, Collection.get?_of_isKey hkey, hget]
          rfl
      | some loaded =>
          refine Or.inr (Or.inl ⟨key, loaded, hkey, hget, ?_⟩)
          exact congrArg Outcome.session (finishFound_eq hkey hget target)
  | made key loaded =>
      have hkey := isKey_of_made hstarted
      have hget : (session.keepMade request key loaded).collection.stylesheets.get? key =
          some loaded := (get?_keepMade key).trans (if_pos rfl)
      refine Or.inr (Or.inr ⟨key, loaded, hkey, rfl, ?_⟩)
      exact congrArg Outcome.session
        (finishFound_eq hkey hget loaded.target)

/-! ## What a move leaves stored -/

/-- An operation invalidates a stylesheet: it tells of a changed font file that the stylesheet
was made from, or of a changed module that imports it. -/
def Operation.Invalidates (project : Project) (session : Session) (key : String)
    (loaded : Loaded) : Operation → Prop
  | .invalidateFontFile file => (loaded.fontFiles.any fun used => Text.Path.same used file) = true
  | .invalidateModule id =>
      ∃ record, session.HasRecord (project.moduleId id) record ∧ record.key = key
  | _ => False

/-- A move invalidates a stylesheet if it is an operation that does. -/
def Move.Invalidates (project : Project) (session : Session) (key : String) (loaded : Loaded) :
    Move → Prop
  | .perform operation _ => operation.Invalidates project session key loaded
  | _ => False

/-- To transform a module is to record some imports of it, or nothing. -/
theorem transform_session (project : Project) (session : Session) (id source : String) :
    (session.transform project id source).session = session ∨ ∃ specifiers,
      (session.transform project id source).session =
        (session.recordImports (project.moduleId id) specifiers).session := by
  unfold transform
  dsimp only
  split
  · exact Or.inl rfl
  · split
    · exact Or.inl rfl
    · exact Or.inr ⟨_, rfl⟩

namespace Keyed

variable {key : String} {loaded : Loaded}

theorem empty : Keyed Session.empty where
  stored key loaded h := by cases h
  recorded module record h := by obtain ⟨_, h, -⟩ := h; cases h

/-! ### Stylesheets -/

theorem kept_of_recordImports (h : Keyed session) {module : String} {specifiers : List String}
    (hget : (session.recordImports module specifiers).session.collection.stylesheets.get? key =
      some loaded) : session.collection.stylesheets.get? key = some loaded := by
  rw [recordImports_eq, collection_settle] at hget
  have hdrop := drop_replaceImports (h.recorded module) specifiers
  exact (hdrop.get?_eq_some.mp hget).1

theorem kept_of_invalidateModule (h : Keyed session) {id : String}
    (hget : (session.invalidateModule project id).1.collection.stylesheets.get? key =
      some loaded) :
    session.collection.stylesheets.get? key = some loaded ∧
      ∀ record, session.HasRecord (project.moduleId id) record → record.key ≠ key := by
  rcases invalidateModule_eq project session id with ⟨hnone, hsame⟩ | ⟨records, hrecords, hchanged⟩
  · rw [hsame] at hget
    refine ⟨hget, ?_⟩
    rintro record ⟨records, hrecords, -⟩
    rw [hnone] at hrecords
    cases hrecords
  · rw [hchanged] at hget
    have hkeys : ∀ other ∈ records.map Record.key, key? other = some other := by
      intro other hother
      obtain ⟨record, hrecord, rfl⟩ := List.mem_map.mp hother
      exact h.recorded _ record ⟨records, hrecords, hrecord⟩
    obtain ⟨hbefore, hkey⟩ := (drop_invalidate hkeys).get?_eq_some.mp hget
    refine ⟨hbefore, ?_⟩
    rintro record ⟨same, hsame, hrecord⟩ rfl
    obtain rfl := Option.some_inj.mp (hrecords.symm.trans hsame)
    exact hkey (List.mem_map_of_mem hrecord)

/-- **An operation that is no request only drops stylesheets**, and drops what it
invalidates. -/
theorem kept_of_perform (h : Keyed session) {operation : Operation}
    (hother : operation.isRequest = false)
    (hget : (session.perform project operation).session.collection.stylesheets.get? key =
      some loaded) :
    session.collection.stylesheets.get? key = some loaded ∧
      ¬ operation.Invalidates project session key loaded := by
  cases operation with
  | load world request => cases hother
  | transform id source =>
      refine ⟨?_, not_false⟩
      simp only [Session.perform] at hget
      rcases transform_session project session id source with hsame | ⟨specifiers, hrecorded⟩
      · exact hsame ▸ hget
      · rw [hrecorded] at hget
        exact h.kept_of_recordImports hget
  | removeModule id => exact ⟨h.kept_of_recordImports hget, not_false⟩
  | invalidateModule id =>
      obtain ⟨hbefore, hapart⟩ := h.kept_of_invalidateModule hget
      refine ⟨hbefore, ?_⟩
      rintro ⟨record, hrecord, hkey⟩
      exact hapart record hrecord hkey
  | invalidateFontFile file =>
      obtain ⟨hbefore, hunused⟩ := dropped_invalidateFontFile h.stored hget
      exact ⟨hbefore, fun hused => Bool.false_ne_true (hunused.symm.trans hused)⟩
  | reset => cases hget

/-! ### Records -/

theorem settle {α : Type} (h : Keyed session) (answer : α) :
    Keyed (session.settle answer).session where
  stored key loaded hget := by
    rw [collection_settle] at hget
    exact h.stored key loaded hget
  recorded module record hrecord := h.recorded module record ((hasRecord_settle answer).mp hrecord)

/-- The keys stay their own if stylesheets are dropped and imports keep their keys. -/
theorem of_dropped {after : Session} (h : Keyed session)
    (hstored : ∀ key loaded, after.collection.stylesheets.get? key = some loaded →
      session.collection.stylesheets.get? key = some loaded)
    (hrecorded : ∀ module record, after.HasRecord module record →
      ∃ old, session.HasRecord module old ∧ record.key = old.key) : Keyed after where
  stored key loaded hget := h.stored key loaded (hstored key loaded hget)
  recorded module record hrecord := by
    obtain ⟨old, hold, hkey⟩ := hrecorded module record hrecord
    rw [hkey]
    exact h.recorded module old hold

theorem recordImports (h : Keyed session) (module : String) (specifiers : List String) :
    Keyed (session.recordImports module specifiers).session where
  stored key loaded hget := h.stored key loaded (h.kept_of_recordImports hget)
  recorded other record hrecord := by
    rw [recordImports_eq, hasRecord_settle, hasRecord_replaceImports] at hrecord
    split at hrecord
    · obtain ⟨specifier, -, key, hkey, rfl⟩ := mem_currentImports.mp hrecord
      exact Stylesheet.key?_key hkey
    · exact h.recorded other record hrecord

theorem invalidateModule (h : Keyed session) (id : String) :
    Keyed (session.invalidateModule project id).1 := by
  refine h.of_dropped (fun _ _ hget => (h.kept_of_invalidateModule hget).1) ?_
  intro module record hrecord
  rcases invalidateModule_eq project session id with ⟨-, hsame⟩ | ⟨records, hrecords, hchanged⟩
  · exact ⟨record, hsame ▸ hrecord, rfl⟩
  · rw [hchanged] at hrecord
    exact hasRecord_reopenModule_key hrecords hrecord

theorem invalidateFontFile (h : Keyed session) (file : String) :
    Keyed (session.invalidateFontFile file).1 := by
  refine h.of_dropped (fun _ _ hget => (dropped_invalidateFontFile h.stored hget).1) ?_
  intro module record hrecord
  rcases invalidateFontFile_eq session file with ⟨-, hsame⟩ | ⟨-, hchanged⟩
  · exact ⟨record, hsame ▸ hrecord, rfl⟩
  · rw [hchanged] at hrecord
    exact hasRecord_mark_key hrecord

theorem perform (h : Keyed session) {operation : Operation}
    (hother : operation.isRequest = false) :
    Keyed (session.perform project operation).session := by
  cases operation with
  | load world request => cases hother
  | transform id source =>
      simp only [Session.perform]
      rcases transform_session project session id source with hsame | ⟨specifiers, hrecorded⟩
      · rw [hsame]
        exact h
      · rw [hrecorded]
        exact h.recordImports _ specifiers
  | removeModule id => exact h.recordImports _ _
  | invalidateModule id => exact h.invalidateModule id
  | invalidateFontFile file => exact h.invalidateFontFile file
  | reset => exact ⟨fun _ _ hget => (by cases hget),
      fun _ _ hrecord => absurd hrecord not_hasRecord_reset⟩

theorem start (h : Keyed session) (world : Loader.World) (request : Request) :
    Keyed (session.start project world request).1 where
  stored key loaded hget := h.stored key loaded (stylesheets_start world request ▸ hget)
  recorded := h.recorded

theorem keepMade (h : Keyed session) {key : String} (hkey : key? key = some key)
    (request : Request) (loaded : Loaded) : Keyed (session.keepMade request key loaded) where
  stored other found hget := by
    rw [get?_keepMade] at hget
    split at hget
    · rename_i hother
      rwa [hother]
    · exact h.stored other found hget
  recorded := h.recorded

theorem receive (h : Keyed session) {key : String} (hkey : key? key = some key)
    (loaded : Loaded) : Keyed (session.receive key loaded).session := by
  refine h.of_dropped (fun _ _ hget => get?_of_get?_receive hkey hget) ?_
  intro module record hrecord
  by_cases himported : session.isImported key = true
  · rw [receive_of_isImported himported, hasRecord_settle] at hrecord
    exact hasRecord_mark_key hrecord
  · rw [receive_of_not_isImported himported] at hrecord
    exact ⟨record, hrecord, rfl⟩

theorem finish (h : Keyed session) {earlier : Session} {world : Loader.World} {request : Request}
    {started : Started} (hstarted : (earlier.start project world request).2 = started) :
    Keyed (session.finish request started).session := by
  rcases finish_cases session hstarted with hsame | ⟨key, loaded, hkey, -, hreceived⟩ |
    ⟨key, loaded, hkey, -, hreceived⟩
  · rwa [hsame]
  · rw [hreceived]
    exact h.receive hkey loaded
  · rw [hreceived]
    exact (h.keepMade hkey request loaded).receive hkey loaded

end Keyed

/-- After any run the keys of the session are its own. -/
theorem keyed_traffic (project : Project) (moves : List Move) :
    Keyed (traffic project moves).session :=
  holds_traffic Keyed .empty (fun _ world request h => h.start world request)
    (fun _ _ hother h => h.perform hother) (fun _ _ _ _ _ hstarted h => h.finish hstarted) moves

/-! ## Where stored stylesheets come from -/

/-- The moves up to the end of a request: it is taken up after some moves, and ended after some
more. -/
def throughFlight (before : List Move) (world : Loader.World) (request : Request)
    (middle : List Move) : List Move :=
  before ++ .start world request :: (middle ++ [.finish before.length])

/-- A run made a stylesheet in one of its requests, from what it read when the request was taken
up, and since the end of the request nothing has invalidated it. -/
def IsIntact (project : Project) (moves : List Move) (key : String) (loaded : Loaded) : Prop :=
  ∃ before world request middle after,
    moves = throughFlight before world request middle ++ after ∧
    startedAfter project before world request = .made key loaded ∧
    ∀ earlier move later, after = earlier ++ move :: later →
      ¬ move.Invalidates project
        (traffic project (throughFlight before world request middle ++ earlier)).session key loaded

/-- A move that does not invalidate a stylesheet leaves it intact. -/
theorem IsIntact.append {moves : List Move} {key : String} {loaded : Loaded}
    (h : IsIntact project moves key loaded) {last : Move}
    (hlast : ¬ last.Invalidates project (traffic project moves).session key loaded) :
    IsIntact project (moves ++ [last]) key loaded := by
  obtain ⟨before, world, request, middle, after, rfl, hmade, hspared⟩ := h
  refine ⟨before, world, request, middle, after ++ [last], by rw [List.append_assoc], hmade, ?_⟩
  intro earlier move later hsplit
  -- The move is the new one, or it stands among those before it.
  rcases List.eq_nil_or_concat later with rfl | ⟨rest, other, rfl⟩
  · obtain ⟨rfl, hmove⟩ := List.append_inj' hsplit rfl
    obtain rfl := List.singleton_inj.mp hmove
    exact hlast
  · rw [List.concat_eq_append, ← List.cons_append, ← List.append_assoc] at hsplit
    exact hspared earlier move rest (List.append_inj' hsplit rfl).1

/-- **After any run every stylesheet is intact.** -/
theorem isIntact_traffic {moves : List Move} {key : String} {loaded : Loaded}
    (hget : (traffic project moves).session.collection.stylesheets.get? key = some loaded) :
    IsIntact project moves key loaded := by
  induction moves using List.reverseRecOn generalizing key loaded with
  | nil => cases hget
  | append_singleton moves last ih =>
      rw [traffic_append] at hget
      have hkeyed := keyed_traffic project moves
      cases last with
      | start world request => exact (ih (stylesheets_start world request ▸ hget)).append not_false
      | perform operation hother =>
          obtain ⟨hbefore, hspared⟩ := hkeyed.kept_of_perform hother hget
          exact (ih hbefore).append hspared
      | finish taken =>
          rcases step_finish project (traffic project moves) taken with
            hsame | ⟨flight, hflight, htaken, hfinished⟩
          · rw [hsame] at hget
            exact (ih hget).append not_false
          · -- Of what is stored, the end of a request adds only what was made for it.
            rw [hfinished] at hget
            obtain ⟨before, world, middle, hmoves, hnumber, hstarted⟩ := exists_start hflight
            rcases finish_cases (traffic project moves).session hstarted with hsame |
              ⟨own, found, hkey, -, hreceived⟩ | ⟨own, found, hkey, hmade, hreceived⟩
            · rw [hsame] at hget
              exact (ih hget).append not_false
            · rw [hreceived] at hget
              exact (ih (get?_of_get?_receive hkey hget)).append not_false
            · rw [hreceived] at hget
              have hkept := get?_of_get?_receive hkey hget
              rw [get?_keepMade] at hkept
              split at hkept
              · -- The stylesheet is the one that the request was taken up for.
                rename_i hown
                obtain rfl := Option.some_inj.mp hkept
                refine ⟨before, world, flight.request, middle, [], ?_, ?_, ?_⟩
                · rw [throughFlight, hmoves, hnumber, htaken]
                  simp
                · rw [hstarted, hmade, hown]
                · intro earlier move later hsplit
                  cases earlier <;> cases hsplit
              · exact (ih hkept).append not_false

/-! ## Resolved imports

An import that is marked as resolved has its stylesheet in the collection, in every run: the
key of an import tells its module, so what is dropped for one module is nothing that another
one has. -/

/-- Imports belong to their modules, and those that are resolved have their stylesheets. -/
structure Backed (session : Session) : Prop where
  belongs : ∀ module record, session.HasRecord module record → BelongsTo record.key module
  resolved : ∀ module record, session.HasRecord module record → record.isResolved = true →
    session.collection.stylesheets.contains record.key = true

namespace Backed

theorem empty : Backed Session.empty where
  belongs module record h := by obtain ⟨_, h, -⟩ := h; cases h
  resolved module record h := by obtain ⟨_, h, -⟩ := h; cases h

theorem settle {α : Type} (h : Backed session) (answer : α) :
    Backed (session.settle answer).session where
  belongs module record hrecord := h.belongs module record ((hasRecord_settle answer).mp hrecord)
  resolved module record hrecord hresolved := by
    rw [collection_settle]
    exact h.resolved module record ((hasRecord_settle answer).mp hrecord) hresolved

/-- More stylesheets do no harm. -/
theorem of_contains (h : Backed session) {collection : Collection}
    (hcontains : ∀ key, session.collection.stylesheets.contains key = true →
      collection.stylesheets.contains key = true) : Backed { session with collection } where
  belongs := h.belongs
  resolved module record hrecord hresolved :=
    hcontains _ (h.resolved module record hrecord hresolved)

/-- Imports are marked, as resolved if there are stylesheets for them. -/
theorem of_marked {after : Session} (h : Backed session) (isResolved : Bool) {keys : List String}
    (hrecorded : ∀ module record, after.HasRecord module record →
      ∃ old, session.HasRecord module old ∧
        record = if keys.contains old.key then { old with isResolved } else old)
    (hmarked : isResolved = true → ∀ key ∈ keys,
      after.collection.stylesheets.contains key = true)
    (hcontains : ∀ key, key ∉ keys → session.collection.stylesheets.contains key = true →
      after.collection.stylesheets.contains key = true) : Backed after where
  belongs module record hrecord := by
    obtain ⟨old, hold, rfl⟩ := hrecorded module record hrecord
    have hbelongs := h.belongs module old hold
    split <;> exact hbelongs
  resolved module record hrecord hresolved := by
    obtain ⟨old, hold, rfl⟩ := hrecorded module record hrecord
    by_cases hkey : keys.contains old.key = true
    · rw [if_pos hkey] at hresolved ⊢
      exact hmarked hresolved old.key (List.contains_iff_mem.mp hkey)
    · rw [if_neg hkey] at hresolved ⊢
      exact hcontains old.key (fun hmem => hkey (List.contains_iff_mem.mpr hmem))
        (h.resolved module old hold hresolved)

theorem replaceImports (h : Backed session) {module : String} {specifiers : List String}
    (hspecifiers : ∀ specifier ∈ specifiers, ∀ key, key? specifier = some key →
      BelongsTo key module) : Backed (session.replaceImports module specifiers) where
  belongs other record hrecord := by
    rw [hasRecord_replaceImports] at hrecord
    split at hrecord
    · rename_i hother
      obtain ⟨specifier, hspecifier, key, hkey, rfl⟩ := mem_currentImports.mp hrecord
      exact hother ▸ hspecifiers specifier hspecifier key hkey
    · exact h.belongs other record hrecord
  resolved other record hrecord hresolved := by
    have hkeys : ∀ record, session.HasRecord module record → key? record.key = some record.key :=
      fun record hrecord => (h.belongs module record hrecord).isKey
    have hdrop := drop_replaceImports hkeys specifiers
    refine hdrop.contains.mpr ⟨?_, Filed.notMem_ended h.belongs hrecord⟩
    rw [hasRecord_replaceImports] at hrecord
    split at hrecord
    · -- A new import was marked by a look at the stylesheets before any was dropped.
      obtain ⟨specifier, hspecifier, key, hkey, rfl⟩ := mem_currentImports.mp hrecord
      dsimp only at hresolved ⊢
      rw [Collection.contains, Collection.get?_of_isKey (hspecifiers _ hspecifier key hkey).isKey]
        at hresolved
      exact hresolved
    · exact h.resolved other record hrecord hresolved

theorem recordImports (h : Backed session) {module : String} {specifiers : List String}
    (hspecifiers : ∀ specifier ∈ specifiers, ∀ key, key? specifier = some key →
      BelongsTo key module) : Backed (session.recordImports module specifiers).session := by
  rw [recordImports_eq]
  exact (h.replaceImports hspecifiers).settle _

theorem transform (h : Backed session) (hregular : project.Regular) (id source : String) :
    Backed (session.transform project id source).session := by
  rcases transform_cases hregular session id source with ⟨answer, hsame⟩ |
    ⟨specifiers, answer, hspecifiers, hrecorded⟩
  · rw [hsame]
    exact h
  · rw [hrecorded]
    exact h.recordImports hspecifiers

theorem invalidateModule (h : Backed session) (id : String) :
    Backed (session.invalidateModule project id).1 := by
  rcases invalidateModule_eq project session id with ⟨-, hsame⟩ | ⟨records, hrecords, hchanged⟩
  · rwa [hsame]
  · have hkeys : ∀ key ∈ records.map Record.key, key? key = some key := by
      intro key hkey
      obtain ⟨record, hrecord, rfl⟩ := List.mem_map.mp hkey
      exact (h.belongs _ record ⟨records, hrecords, hrecord⟩).isKey
    rw [hchanged]
    refine h.of_marked false
      (fun _ _ => (Filed.hasRecord_reopenModule_of_belongs h.belongs hrecords).mp)
      (fun hfalse => absurd hfalse Bool.false_ne_true) fun key hkey hcontains => ?_
    exact (drop_invalidate hkeys).contains.mpr ⟨hcontains, hkey⟩

theorem invalidateFontFile (h : Backed session) (hkeyed : Keyed session) (file : String) :
    Backed (session.invalidateFontFile file).1 := by
  rcases invalidateFontFile_eq session file with ⟨-, hsame⟩ | ⟨-, hchanged⟩
  · rwa [hsame]
  · have hkeys : ∀ key ∈ session.collection.keysUsing file, key? key = some key := by
      intro key hkey
      obtain ⟨loaded, hget, -⟩ := Collection.mem_keysUsing.mp hkey
      exact hkeyed.stored key loaded hget
    rw [hchanged]
    refine h.of_marked false (fun _ _ => hasRecord_mark.mp)
      (fun hfalse => absurd hfalse Bool.false_ne_true) fun key hkey hcontains => ?_
    exact (drop_invalidate hkeys).contains.mpr ⟨hcontains, hkey⟩

theorem perform (h : Backed session) (hkeyed : Keyed session) (hregular : project.Regular)
    {operation : Operation} (hother : operation.isRequest = false) :
    Backed (session.perform project operation).session := by
  cases operation with
  | load world request => cases hother
  | transform id source =>
      simp only [Session.perform]
      exact h.transform hregular id source
  | removeModule id =>
      exact h.recordImports fun _ hspecifier => absurd hspecifier List.not_mem_nil
  | invalidateModule id => exact h.invalidateModule id
  | invalidateFontFile file => exact h.invalidateFontFile hkeyed file
  | reset => exact ⟨fun _ _ hrecord => absurd hrecord not_hasRecord_reset,
      fun _ _ hrecord => absurd hrecord not_hasRecord_reset⟩

theorem start (h : Backed session) (world : Loader.World) (request : Request) :
    Backed (session.start project world request).1 := by
  refine h.of_contains fun key hcontains => ?_
  exact (congrArg (fun stylesheets => stylesheets.contains key)
    (stylesheets_start world request)).trans hcontains

/-- A stylesheet that is received is stored, or nobody imports it. -/
theorem receive (h : Backed session) {key : String} (hkey : key? key = some key)
    {loaded : Loaded} (hget : session.collection.stylesheets.get? key = some loaded) :
    Backed (session.receive key loaded).session := by
  by_cases himported : session.isImported key = true
  · rw [receive_of_isImported himported]
    have hmarked : Backed (session.resolveImports key loaded) := by
      refine h.of_marked true (fun _ _ => hasRecord_mark.mp) (fun _ other hother => ?_)
        fun _ _ hcontains => hcontains
      rw [List.mem_singleton.mp hother]
      exact Table.contains_iff.mpr ⟨loaded, hget⟩
    exact hmarked.settle ()
  · rw [receive_of_not_isImported himported]
    have hdrop := drop_discard_key session hkey
    refine ⟨h.belongs, fun module record hrecord hresolved => hdrop.contains.mpr ⟨?_, ?_⟩⟩
    · exact h.resolved module record hrecord hresolved
    · intro hmem
      exact himported (isImported_iff.mpr ⟨module, record, hrecord, List.mem_singleton.mp hmem⟩)

theorem keepMade (h : Backed session) (request : Request) (key : String) (loaded : Loaded) :
    Backed (session.keepMade request key loaded) := by
  refine h.of_contains fun other hcontains => ?_
  obtain ⟨found, hfound⟩ := Table.contains_iff.mp hcontains
  by_cases hother : other = key
  · exact Table.contains_iff.mpr ⟨loaded, (get?_keepMade other).trans (if_pos hother)⟩
  · exact Table.contains_iff.mpr ⟨found, ((get?_keepMade other).trans (if_neg hother)).trans hfound⟩

theorem finish (h : Backed session) {earlier : Session} {world : Loader.World}
    {request : Request} {started : Started}
    (hstarted : (earlier.start project world request).2 = started) :
    Backed (session.finish request started).session := by
  rcases finish_cases session hstarted with hsame | ⟨key, loaded, hkey, hget, hreceived⟩ |
    ⟨key, loaded, hkey, -, hreceived⟩
  · rwa [hsame]
  · rw [hreceived]
    exact h.receive hkey hget
  · rw [hreceived]
    exact (h.keepMade request key loaded).receive hkey ((get?_keepMade key).trans (if_pos rfl))

end Backed

theorem backed_traffic (hregular : project.Regular) (moves : List Move) :
    Backed (traffic project moves).session := by
  have hboth : Keyed (traffic project moves).session ∧ Backed (traffic project moves).session := by
    refine holds_traffic (fun session => Keyed session ∧ Backed session) ⟨.empty, .empty⟩
      ?_ ?_ ?_ moves
    · rintro session world request ⟨hkeyed, hbacked⟩
      exact ⟨hkeyed.start world request, hbacked.start world request⟩
    · rintro session operation hother ⟨hkeyed, hbacked⟩
      exact ⟨hkeyed.perform hother, hbacked.perform hkeyed hregular hother⟩
    · rintro session earlier world request started hstarted ⟨hkeyed, hbacked⟩
      exact ⟨hkeyed.finish hstarted, hbacked.finish hstarted⟩
  exact hboth.2

/-! ## Requests that are overtaken -/

/-- A request keeps what it made for as long as anybody imports it, whatever has changed since it
was taken up. -/
theorem finish_made_of_isImported {request : Request} {key : String} {loaded : Loaded}
    (hkey : key? key = some key) (himported : session.isImported key = true) :
    (session.finish request (.made key loaded)).session.collection.stylesheets.get? key =
        some loaded ∧
      ∀ module record, session.HasRecord module record → record.key = key →
        (session.finish request (.made key loaded)).session.HasRecord module
          { record with isResolved := true } := by
  have hget : (session.keepMade request key loaded).collection.stylesheets.get? key =
      some loaded := (get?_keepMade key).trans (if_pos rfl)
  have hfinish : (session.finish request (.made key loaded)).session =
      (((session.keepMade request key loaded).resolveImports key loaded).settle ()).session := by
    have hkept : (session.keepMade request key loaded).isImported key = true := himported
    rw [← receive_of_isImported hkept]
    exact congrArg Outcome.session (finishFound_eq hkey hget loaded.target)
  rw [hfinish, collection_settle]
  refine ⟨hget, fun module record hrecord hown => (hasRecord_settle ()).mpr ?_⟩
  refine hasRecord_mark.mpr ⟨record, hrecord, ?_⟩
  rw [if_pos (by simp [hown])]

/-- The flight of the request that the last move took up is found by the number of that move. -/
theorem find?_flights_start (project : Project) (before : List Move) (world : Loader.World)
    (request : Request) :
    ((traffic project (before ++ [.start world request])).flights.find? fun flight =>
      flight.taken == before.length) =
      some ⟨before.length, request, startedAfter project before world request⟩ := by
  have hearlier : ((traffic project before).flights.find? fun flight =>
      flight.taken == before.length) = none := by
    refine List.find?_eq_none.mpr fun flight hflight hnumber => ?_
    obtain ⟨start, _, middle, rfl, hlength, -⟩ := exists_start hflight
    rw [← hlength, beq_iff_eq, List.length_append, List.length_cons] at hnumber
    omega
  rw [traffic_append]
  simp only [Traffic.step, List.find?_append, hearlier, Option.none_or, clock_traffic]
  simp [startedAfter]

/-- The moves of a request with one operation between its start and its end. -/
def overtakenBy (before : List Move) (world : Loader.World) (request : Request)
    (operation : Operation) (hother : operation.isRequest = false) : List Move :=
  throughFlight before world request [.perform operation hother]

theorem traffic_overtakenBy (before : List Move) (world : Loader.World) (request : Request)
    (operation : Operation) (hother : operation.isRequest = false) :
    (traffic project (overtakenBy before world request operation hother)).session =
      ((((traffic project (before ++ [.start world request])).session.perform project
        operation).session).finish request (startedAfter project before world request)).session := by
  have hmoves : overtakenBy before world request operation hother =
      before ++ [.start world request] ++ [.perform operation hother] ++
        [.finish before.length] := by
    simp [overtakenBy, throughFlight]
  rw [hmoves, traffic_append, traffic_append]
  simp only [Traffic.step, find?_flights_start]

/-- A request whose end follows on its start is a whole one, so the runs include the sequences of
operations. -/
theorem exists_traffic_built (project : Project) (operations : List Operation) :
    ∃ moves, (traffic project moves).session = built project operations := by
  induction operations using List.reverseRecOn with
  | nil => exact ⟨[], rfl⟩
  | append_singleton operations last ih =>
      obtain ⟨moves, hmoves⟩ := ih
      rw [built_append, ← hmoves]
      by_cases hlast : last.isRequest = false
      · exact ⟨moves ++ [.perform last hlast], by rw [traffic_append]; rfl⟩
      · cases last with
        | load world request =>
            refine ⟨moves ++ [.start world request] ++ [.finish moves.length], ?_⟩
            rw [traffic_append]
            simp only [Traffic.step, find?_flights_start, session_traffic_start]
            rfl
        | _ => exact absurd rfl hlast

/-- An import that waits for a new stylesheet is still an import. -/
theorem isImported_perform_of_invalidation {operation : Operation} {changed : String}
    (hoperation : operation = .invalidateFontFile changed ∨ operation = .invalidateModule changed)
    {key : String} (h : session.isImported key = true) :
    (session.perform project operation).session.isImported key = true := by
  rcases hoperation with rfl | rfl
  · show (session.invalidateFontFile changed).1.isImported key = true
    rcases invalidateFontFile_eq session changed with ⟨-, heq⟩ | ⟨-, heq⟩
    · rw [heq]
      exact h
    · rw [heq, isImported_congr records_invalidate]
      exact isImported_mark.mpr h
  · show (session.invalidateModule project changed).1.isImported key = true
    rcases invalidateModule_eq project session changed with ⟨-, heq⟩ | ⟨records, hget, heq⟩
    · rw [heq]
      exact h
    · rw [heq, isImported_congr records_invalidate]
      exact (isImported_reopenModule hget).mpr h

/-! ### A request that is overtaken

The stylesheet of the small build is asked for, and while the request is in flight, its font
file or its module changes. -/

/-- The world in which the font file has a certain content. -/
def hostingWorld (content : Asset.Bytes) : Loader.World :=
  { Loader.World.unconnected with file := fun _ _ => .ok content }

/-- The moves before the request. -/
def hostingStart : List Move := [.perform smallTransform rfl]

/-- The request, which reads the older content. -/
def hostingRequest : Request := ⟨smallKey, "client", false⟩

/-- The session while the request is in flight. -/
def hostingInFlight : Session :=
  (traffic hostingProject (hostingStart ++ [.start (hostingWorld [1]) hostingRequest])).session

/-- The request is overtaken by an operation. -/
def overtakenRun (operation : Operation) (hother : operation.isRequest = false) : List Move :=
  overtakenBy hostingStart (hostingWorld [1]) hostingRequest operation hother

/-- The files that something was made from. -/
def filesOf? : Started → Option (String × List String)
  | .made key loaded => some (key, loaded.fontFiles)
  | _ => none

theorem eq_made_of_filesOf? {started : Started} {key : String} {files : List String}
    (h : filesOf? started = some (key, files)) :
    ∃ loaded, started = .made key loaded ∧ loaded.fontFiles = files := by
  cases started with
  | made own loaded =>
      obtain ⟨rfl, rfl⟩ := Prod.mk.inj (Option.some_inj.mp h)
      exact ⟨loaded, rfl, rfl⟩
  | _ => cases h

/-- What may happen while the request is in flight: its font file changes, its module changes, or
another font file does. -/
def hostingChanges : List Operation :=
  [.invalidateFontFile "a.woff2", .invalidateModule "a.js", .invalidateFontFile "b.woff2"]

/-- The module waits for its stylesheet when the request is taken up. -/
theorem session_hostingStart :
    (traffic hostingProject hostingStart).session = empty.awaiting "a.js" smallKey :=
  (traffic_perform hostingProject smallTransform rfl).trans built_hostingTransform

/-- The request makes a stylesheet of the file. -/
theorem exists_start_hostingRequest : ∃ collection loaded,
    (empty.awaiting "a.js" smallKey).collection.start hostingProject.setup (hostingWorld [1])
        hostingRequest = (collection, .made smallKey loaded) ∧
      loaded.fontFiles = ["a.woff2"] := by
  obtain ⟨collection, loaded, hmade, -, -, -, -, hfiles⟩ := @start_hostingProject [1] olderAsset
    isHosted_olderAsset (empty.awaiting "a.js" smallKey).collection "client" List.not_mem_nil
  exact ⟨collection, loaded, hmade, hfiles⟩

theorem exists_loaded_inFlight : ∃ loaded,
    startedAfter hostingProject hostingStart (hostingWorld [1]) hostingRequest =
        .made smallKey loaded ∧
      loaded.fontFiles = ["a.woff2"] := by
  obtain ⟨collection, loaded, hmade, hfiles⟩ := exists_start_hostingRequest
  refine ⟨loaded, ?_, hfiles⟩
  rw [startedAfter, session_hostingStart, start_eq hmade]

/-- The module still waits while the request is in flight. -/
theorem records_hostingInFlight :
    hostingInFlight.records = (empty.awaiting "a.js" smallKey).records := by
  rw [hostingInFlight, records_traffic_start, session_hostingStart]

/-- What the runs of the request come to. -/
theorem overtakenRun_runs :
    filesOf? (startedAfter hostingProject hostingStart (hostingWorld [1]) hostingRequest) =
        some (smallKey, ["a.woff2"]) ∧
      hostingInFlight.records.entries = [("a.js", [⟨smallKey, smallKey, false⟩])] ∧
      ∀ operation ∈ hostingChanges,
        ((hostingInFlight.perform hostingProject operation).session.isImported smallKey) = true := by
  obtain ⟨loaded, hmade, hfiles⟩ := exists_loaded_inFlight
  have himported : hostingInFlight.isImported smallKey = true := by
    rw [isImported_congr records_hostingInFlight]
    exact isImported_awaiting _ _ _
  refine ⟨?_, ?_, fun operation hoperation => ?_⟩
  · rw [hmade, filesOf?, hfiles]
  · rw [records_hostingInFlight]
    rfl
  · have hchange : ∃ changed, operation = .invalidateFontFile changed ∨
        operation = .invalidateModule changed := by
      simp only [hostingChanges, List.mem_cons, List.not_mem_nil, or_false] at hoperation
      rcases hoperation with rfl | rfl | rfl
      · exact ⟨_, Or.inl rfl⟩
      · exact ⟨_, Or.inr rfl⟩
      · exact ⟨_, Or.inl rfl⟩
    obtain ⟨changed, hchange⟩ := hchange
    exact isImported_perform_of_invalidation hchange himported

/-- Whatever changes while the request is in flight, in the end the import is resolved by what the
request made. -/
theorem overtakenRun_resolves {loaded : Loaded}
    (hmade : startedAfter hostingProject hostingStart (hostingWorld [1]) hostingRequest =
      .made smallKey loaded)
    {operation : Operation} (hother : operation.isRequest = false)
    (hoperation : operation ∈ hostingChanges) :
    (traffic hostingProject (overtakenRun operation hother)).session.collection.stylesheets.get?
        smallKey = some loaded ∧
      ∃ module record, (traffic hostingProject (overtakenRun operation hother)).session.HasRecord
        module record ∧ record.key = smallKey ∧ record.isResolved = true := by
  have hsession : (traffic hostingProject (overtakenRun operation hother)).session =
      ((hostingInFlight.perform hostingProject operation).session.finish hostingRequest
        (.made smallKey loaded)).session := by
    rw [overtakenRun, traffic_overtakenBy, hmade, hostingInFlight]
  have himported := overtakenRun_runs.2.2 operation hoperation
  obtain ⟨hkept, hresolved⟩ := finish_made_of_isImported (isKey_of_startedAfter hmade) himported
  obtain ⟨module, record, hrecord, hkey⟩ := isImported_iff.mp himported
  rw [hsession]
  exact ⟨hkept, module, _, hresolved module record hrecord hkey, hkey, rfl⟩

/-! ## Which invalidations are lost -/

/-- **An invalidation is lost only to a request in flight.**  After any run, every stylesheet was
made in one of its requests, and nothing has invalidated it since the end of that request: an
invalidation that tells of a change after its files were read met the request in flight.  The
stylesheets of the imports that are resolved are among them. -/
theorem invalidation_is_lost_only_in_flight (project : Project) (moves : List Move) :
    (∀ key loaded,
      (traffic project moves).session.collection.stylesheets.get? key = some loaded →
        IsIntact project moves key loaded) ∧
    (project.Regular → ∀ module record,
      (traffic project moves).session.HasRecord module record → record.isResolved = true →
        ∃ loaded, IsIntact project moves record.key loaded ∧
          (traffic project moves).session.collection.stylesheets.get? record.key = some loaded) := by
  refine ⟨fun key loaded hget => isIntact_traffic hget, ?_⟩
  intro hregular module record hrecord hresolved
  obtain ⟨loaded, hget⟩ := Table.contains_iff.mp
    ((backed_traffic hregular moves).resolved module record hrecord hresolved)
  exact ⟨loaded, isIntact_traffic hget, hget⟩

/-- A change of another font file is nothing to the request, and its stylesheet is intact in the
end. -/
theorem request_is_intact_after_other_change :
    let moves := overtakenRun (.invalidateFontFile "b.woff2") rfl
    ∃ module record, (traffic hostingProject moves).session.HasRecord module record ∧
      record.isResolved = true ∧ ∃ loaded, IsIntact hostingProject moves record.key loaded ∧
        (traffic hostingProject moves).session.collection.stylesheets.get? record.key =
          some loaded := by
  intro moves
  obtain ⟨loaded, hmade, -⟩ := eq_made_of_filesOf? overtakenRun_runs.1
  have hchange : Operation.invalidateFontFile "b.woff2" ∈ hostingChanges := by
    simp [hostingChanges]
  obtain ⟨-, module, record, hrecord, -, hresolved⟩ := overtakenRun_resolves hmade rfl hchange
  exact ⟨module, record, hrecord, hresolved,
    (invalidation_is_lost_only_in_flight hostingProject moves).2 regular_hostingProject module
      record hrecord hresolved⟩

/-- **What a request in flight has read is kept after an invalidation.**  Whether it is the font
file that changes or the module, the stylesheet that is stored in the end and resolves the import
was made from what had been read before. -/
theorem overtaken_request_keeps_older_content :
    ∃ loaded,
      startedAfter hostingProject hostingStart (hostingWorld [1]) hostingRequest =
        .made smallKey loaded ∧
      ∀ operation, ∀ hother : operation.isRequest = false,
        operation = .invalidateFontFile "a.woff2" ∨ operation = .invalidateModule "a.js" →
          operation.Invalidates hostingProject hostingInFlight smallKey loaded ∧
          (traffic hostingProject (overtakenRun operation hother)).session.collection.stylesheets.get?
            smallKey = some loaded ∧
          ∃ module record, (traffic hostingProject (overtakenRun operation hother)).session.HasRecord
            module record ∧ record.key = smallKey ∧ record.isResolved = true := by
  obtain ⟨hfiles, hrecords, -⟩ := overtakenRun_runs
  obtain ⟨loaded, hmade, hfontFiles⟩ := eq_made_of_filesOf? hfiles
  refine ⟨loaded, hmade, fun operation hother hoperation => ⟨?_, ?_⟩⟩
  · rcases hoperation with rfl | rfl
    · show (loaded.fontFiles.any fun used => Text.Path.same used "a.woff2") = true
      rw [hfontFiles]
      decide
    · have hget : hostingInFlight.records.get? "a.js" = some [⟨smallKey, smallKey, false⟩] :=
        Table.mem_entries_iff.mp (hrecords ▸ List.mem_singleton_self _)
      have hmodule : hostingProject.moduleId "a.js" = "a.js" := callsOnce_hostingProject.module_eq
      exact ⟨_, ⟨_, hmodule.symm ▸ hget, List.mem_singleton_self _⟩, rfl⟩
  · refine overtakenRun_resolves hmade hother ?_
    rcases hoperation with rfl | rfl <;> simp [hostingChanges]

end FontHosting.Session

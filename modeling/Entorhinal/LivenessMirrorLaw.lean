import Entorhinal.LivenessHosts

/-! A fresh mirror is the table of one host incarnation. -/
namespace Entorhinal.LivenessMirror
open Session Transition

theorem latest_append (first second : List LivenessSession) (key : SessionKey) :
    latest (first ++ second) key = (latest second key).or (latest first key) := by
  induction first with
  | nil => cases h : latest second key <;> simp [latest,h]
  | cons session rest ih =>
    simp only [List.cons_append,latest,ih]
    cases latest second key <;> cases latest rest key <;> rfl

section Entries

variable {readings : Nat → Int}

/-- The entries of a batch, applied to the mirror. -/
def entries (readings : Nat → Int) (state : LivenessState) (ended : List GoneSession)
    (sessions : List LivenessSession) : LivenessState × List GoneSession :=
  sessions.foldl (fun acc session => applyEntry readings acc.1 acc.2 session) (state,ended)

theorem applyEntry_sessions (readings : Nat → Int) (state : LivenessState) (ended : List GoneSession) (session : LivenessSession) :
    (applyEntry readings state ended session).1.sessions = change state.sessions session := by
  rw [applyEntry,change]
  split <;> rfl

theorem applyEntry_latch (readings : Nat → Int) (state : LivenessState) (ended : List GoneSession) (session : LivenessSession) :
    (applyEntry readings state ended session).1.stale = state.stale ∧
      (applyEntry readings state ended session).1.lastSeq = state.lastSeq ∧
      (applyEntry readings state ended session).1.sender = state.sender := by
  rw [applyEntry]
  split <;> exact ⟨rfl,rfl,rfl⟩

/-- A key that is remembered was remembered before or is the one reported gone. -/
theorem remember_gone {state : LivenessState} {key other : SessionKey}
    (has : (state.remember key).gone.has other = true) : other = key ∨ state.gone.has other = true := by
  have inserted : ∀ {table : Table SessionKey Unit}, (table = state.gone.insert key () ∨
      ∃ first, table = (state.gone.insert key ()).erase first) → table.has other = true →
      other = key ∨ state.gone.has other = true := by
    rintro table (rfl | ⟨first,rfl⟩) has
    · rw [Table.has,Table.get?_insert] at has
      split at has
      next same => exact .inl same
      next => exact .inr has
    · rw [Table.has,Table.get?_erase] at has
      split at has
      next => cases has
      next =>
        rw [Table.get?_insert] at has
        split at has
        next same => exact .inl same
        next => exact .inr has
  rw [LivenessState.remember] at has
  dsimp only at has
  refine inserted ?_ has
  split
  next =>
    split
    next first _ _ => exact .inr ⟨first,rfl⟩
    next => exact .inl rfl
  next => exact .inl rfl

theorem applyEntry_gone {state : LivenessState} {ended : List GoneSession} {session : LivenessSession}
    {key : SessionKey} (has : (applyEntry readings state ended session).1.gone.has key = true) :
    (keyOf session = key ∧ session.state = "gone") ∨ (keyOf session ≠ key ∧ state.gone.has key = true) := by
  rw [applyEntry] at has
  by_cases same : keyOf session = key
  · refine .inl ⟨same,?_⟩
    by_contra other
    rw [if_neg other] at has
    simp [Table.has,← same,keyOf] at has
  · refine .inr ⟨same,?_⟩
    split at has
    next => exact (remember_gone has).resolve_left fun equal => same equal.symm
    next =>
      rw [Table.has,Table.get?_erase,if_neg fun equal => same (by rw [equal]; rfl)] at has
      exact has

theorem entries_sessions (sessions : List LivenessSession) (state : LivenessState) (ended : List GoneSession) :
    (entries readings state ended sessions).1.sessions = changes state.sessions sessions := by
  induction sessions generalizing state ended with
  | nil => rfl
  | cons session rest ih =>
    rw [entries,List.foldl_cons,changes,List.foldl_cons,← applyEntry_sessions readings state ended]
    exact ih _ _

theorem entries_latch (sessions : List LivenessSession) (state : LivenessState) (ended : List GoneSession) :
    (entries readings state ended sessions).1.stale = state.stale ∧
      (entries readings state ended sessions).1.lastSeq = state.lastSeq ∧
      (entries readings state ended sessions).1.sender = state.sender := by
  induction sessions generalizing state ended with
  | nil => exact ⟨rfl,rfl,rfl⟩
  | cons session rest ih =>
    obtain ⟨stale,lastSeq,sender⟩ := applyEntry_latch readings state ended session
    obtain ⟨stale',lastSeq',sender'⟩ :=
      ih (applyEntry readings state ended session).1 (applyEntry readings state ended session).2
    exact ⟨stale'.trans stale,lastSeq'.trans lastSeq,sender'.trans sender⟩

/-- What is remembered after a batch was reported gone by it, or was remembered and is not
in it. -/
theorem entries_gone {sessions : List LivenessSession} {state : LivenessState} {ended : List GoneSession}
    {key : SessionKey} (has : (entries readings state ended sessions).1.gone.has key = true) :
    latest sessions key = some "gone" ∨ (latest sessions key = none ∧ state.gone.has key = true) := by
  induction sessions generalizing state ended with
  | nil => exact .inr ⟨rfl,has⟩
  | cons session rest ih =>
    rcases ih has with later | ⟨none_later,before⟩
    · exact .inl (by simp [latest,later])
    · rcases applyEntry_gone before with ⟨same,gone⟩ | ⟨other,remembered⟩
      · exact .inl (by simp [latest,none_later,same,gone])
      · exact .inr ⟨by simp [latest,none_later,other],remembered⟩

end Entries

theorem sessionLiveness_applied {state : LivenessState} {batch : LivenessBatch} {route : Nat}
    {principal : String} {readings : Nat → Int}
    (applied : ((state.from route principal).sequence batch).2 = true) :
    (sessionLiveness state batch route principal readings).state =
      (entries readings ((state.from route principal).sequence batch).1 [] batch.sessions).1 := by
  simp only [sessionLiveness,applied,if_true,entries]

theorem sessionLiveness_refused {state : LivenessState} {batch : LivenessBatch} {route : Nat}
    {principal : String} {readings : Nat → Int}
    (refused : ((state.from route principal).sequence batch).2 = false) :
    (sessionLiveness state batch route principal readings).state =
      ((state.from route principal).sequence batch).1 := by
  simp [sessionLiveness,refused]

/-- After a batch the mirror is stale, or the batch was a snapshot, or it was the next
delta on a fresh mirror from the same principal. -/
theorem sessionLiveness_cases {state : LivenessState} {batch : LivenessBatch} {route : Nat}
    {principal : String} {readings : Nat → Int} (heard : state.stale = false → state.lastSeq ≠ none)
    (fresh : (sessionLiveness state batch route principal readings).state.stale = false) :
    ∃ base : LivenessState, base.lastSeq = some batch.seq ∧
      (sessionLiveness state batch route principal readings).state =
        (entries readings base [] batch.sessions).1 ∧
      (batch.snapshot = true ∧ base.sessions = ∅ ∧ base.gone = ∅ ∨
        batch.snapshot = false ∧ state.stale = false ∧ state.sender.all (·.2 == principal) = true ∧
          base.sessions = state.sessions ∧ base.gone = state.gone ∧
          ∃ last, state.lastSeq = some last ∧ last < batch.seq ∧ batch.seq = (last + 1) % u64Bound) := by
  cases snapshot : batch.snapshot with
  | true =>
    have applied : ((state.from route principal).sequence batch).2 = true := by
      simp [LivenessState.sequence,snapshot]
    refine ⟨_,?_,sessionLiveness_applied applied,.inl ⟨rfl,?_,?_⟩⟩ <;>
      simp [LivenessState.sequence,snapshot]
  | false =>
    cases number : state.lastSeq with
    | none =>
      have applied : ((state.from route principal).sequence batch).2 = true := by
        simp [LivenessState.sequence,LivenessState.from,snapshot,number]
      rw [sessionLiveness_applied applied,(entries_latch _ _ _).1] at fresh
      simp only [LivenessState.sequence,LivenessState.from,snapshot,number,Bool.false_eq_true,if_false,
        Bool.or_eq_false_iff] at fresh
      exact absurd number (heard fresh.1)
    | some last =>
      by_cases old : batch.seq ≤ last
      · have refused : ((state.from route principal).sequence batch).2 = false := by
          simp [LivenessState.sequence,LivenessState.from,snapshot,number,old]
        rw [sessionLiveness_refused refused] at fresh
        simp [LivenessState.sequence,LivenessState.from,snapshot,number,old] at fresh
      · have applied : ((state.from route principal).sequence batch).2 = true := by
          simp [LivenessState.sequence,LivenessState.from,snapshot,number,old]
        have latched := fresh
        rw [sessionLiveness_applied applied,(entries_latch _ _ _).1] at latched
        simp only [LivenessState.sequence,LivenessState.from,snapshot,number,if_neg old,Bool.or_eq_false_iff,
          bne_eq_false_iff_eq,Bool.false_eq_true,if_false] at latched
        obtain ⟨⟨unlatched,same⟩,next⟩ := latched
        have principal_same : state.sender.all (·.2 == principal) = true := by
          cases sender : state.sender with
          | none => rfl
          | some before => simpa [sender] using same
        refine ⟨_,?_,sessionLiveness_applied applied,.inr ⟨rfl,unlatched,principal_same,?_,?_,last,rfl,
          not_le.mp old,next⟩⟩ <;>
          simp [LivenessState.sequence,LivenessState.from,snapshot,number,old]

namespace Host

theorem table_add {host : Host} {report : Report}
    {honest : report.snapshot = true → changes ∅ report.sessions = host.table host.reports.length}
    {count : Nat} (within : count ≤ host.reports.length) :
    (host.add report honest).table count = host.table count := by
  rw [table,table,add,List.take_append_of_le_length within]

theorem between_add {host : Host} {report : Report}
    {honest : report.snapshot = true → changes ∅ report.sessions = host.table host.reports.length}
    {since upto : Nat} (within : upto < host.reports.length) :
    (host.add report honest).between since upto = host.between since upto := by
  rw [between,between,add,List.take_append_of_le_length (by omega)]

theorem batch_some {host : Host} {index : Nat} {batch : LivenessBatch} (made : host.batch index = some batch) :
    ∃ report, host.reports[index]? = some report ∧
      batch = ⟨host.start + index,report.snapshot,report.sessions⟩ := by
  obtain ⟨report,found,rfl⟩ := Option.map_eq_some_iff.mp made
  exact ⟨report,found,rfl⟩

theorem batch_add {host : Host} {report : Report}
    {honest : report.snapshot = true → changes ∅ report.sessions = host.table host.reports.length}
    {index : Nat} (within : index < host.reports.length) :
    (host.add report honest).batch index = host.batch index := by
  rw [batch,batch,add,List.getElem?_append_left within]

theorem table_next {host : Host} {index : Nat} {report : Report} (found : host.reports[index]? = some report)
    (delta : report.snapshot = false) :
    host.table (index + 1) = changes (host.table index) report.sessions := by
  rw [table,table,List.take_add_one,found,tableAfter,List.foldl_append]
  simp [delta,tableAfter]

theorem table_snapshot {host : Host} {index : Nat} {report : Report}
    (found : host.reports[index]? = some report) (snapshot : report.snapshot = true) :
    host.table (index + 1) = changes ∅ report.sessions := by
  rw [host.honest index report found snapshot,table,List.take_add_one,found,tableAfter,List.foldl_append]
  simp [snapshot,tableAfter]

theorem between_self {host : Host} {index : Nat} {report : Report}
    (found : host.reports[index]? = some report) : host.between index index = report.sessions := by
  obtain ⟨within,rfl⟩ := List.getElem?_eq_some_iff.mp found
  rw [between,List.take_add_one,found,List.drop_append_of_le_length (by simp; omega)]
  simp

theorem between_next {host : Host} {since index : Nat} {report : Report}
    (found : host.reports[index + 1]? = some report) (since_le : since ≤ index) :
    host.between since (index + 1) = host.between since index ++ report.sessions := by
  obtain ⟨within,_⟩ := List.getElem?_eq_some_iff.mp found
  rw [between,List.take_add_one,found,List.drop_append_of_le_length (by simp; omega),List.flatMap_append,
    between]
  simp

/-- A host that has sent more is the same host as far as it had got. -/
structure Extends (host later : Host) : Prop where
  start : later.start = host.start
  length : host.reports.length ≤ later.reports.length
  table : ∀ count ≤ host.reports.length, later.table count = host.table count
  between : ∀ since upto, upto < host.reports.length → later.between since upto = host.between since upto
  batch : ∀ index < host.reports.length, later.batch index = host.batch index

theorem Extends.refl (host : Host) : Extends host host := ⟨rfl,le_rfl,fun _ _ => rfl,fun _ _ _ => rfl,fun _ _ => rfl⟩

theorem Extends.add {host : Host} {report : Report}
    (honest : report.snapshot = true → changes ∅ report.sessions = host.table host.reports.length) :
    Extends host (host.add report honest) where
  start := rfl
  length := by simp [Host.add]
  table := fun _ within => table_add within
  between := fun _ _ within => between_add within
  batch := fun _ within => batch_add within

end Host

structure Sound (w : World) : Prop where
  carried : ∀ message, (message ∈ w.flight ∨ ∃ principal, (message,principal) ∈ w.handling) →
    ∃ host, w.hosts.get? message.host = some host ∧ message.index < host.reports.length
  bounded : ∀ id host, w.hosts.get? id = some host → host.start + host.reports.length ≤ u64Bound
  fresh : w.mirror.stale = false → Faithful w

theorem Sound.start : Sound World.start where
  carried := by rintro message (member | ⟨_,member⟩) <;> cases member
  bounded := by intro id host found; cases found
  fresh := by intro fresh; cases fresh

/-- The hosts go on and messages are only handed on. -/
structure Moves (w w' : World) : Prop where
  hosts : ∀ id host, w.hosts.get? id = some host →
    ∃ later, w'.hosts.get? id = some later ∧ host.Extends later
  flight : ∀ message ∈ w'.flight, message ∈ w.flight ∨
    ∃ host, w'.hosts.get? message.host = some host ∧ message.index < host.reports.length
  handling : ∀ message principal, (message,principal) ∈ w'.handling →
    message ∈ w.flight ∨ (message,principal) ∈ w.handling

theorem Moves.carried {w w' : World} (moves : Moves w w') (sound : Sound w) (message : Message)
    (member : message ∈ w'.flight ∨ ∃ principal, (message,principal) ∈ w'.handling) :
    ∃ host, w'.hosts.get? message.host = some host ∧ message.index < host.reports.length := by
  have kept : (message ∈ w.flight ∨ ∃ principal, (message,principal) ∈ w.handling) →
      ∃ host, w'.hosts.get? message.host = some host ∧ message.index < host.reports.length := by
    intro before
    obtain ⟨host,found,within⟩ := sound.carried message before
    obtain ⟨later,held,extends'⟩ := moves.hosts _ host found
    exact ⟨later,held,within.trans_le extends'.length⟩
  rcases member with flying | ⟨principal,waiting⟩
  · exact (moves.flight message flying).elim (fun before => kept (.inl before)) fun sent => sent
  · exact kept ((moves.handling message principal waiting).imp_right fun before => ⟨principal,before⟩)

theorem Faithful.kept {w w' : World} (faithful : Faithful w) (moves : Moves w w')
    (source : w'.source = w.source) (lastSeq : w'.mirror.lastSeq = w.mirror.lastSeq)
    (sessions : w'.mirror.sessions = w.mirror.sessions) (gone : w'.mirror.gone = w.mirror.gone) :
    Faithful w' := by
  obtain ⟨id,host,since,upto,from_host,found,ordered,within,number,table,remembered⟩ := faithful
  obtain ⟨later,held,extends'⟩ := moves.hosts id host found
  refine ⟨id,later,since,upto,source.trans from_host,held,ordered,within.trans_le extends'.length,?_,?_,?_⟩
  · rw [lastSeq,number,extends'.start]
  · rw [sessions,table,extends'.table (upto + 1) within]
  · rw [gone,extends'.between since upto within]
    exact remembered

/-- A step that does not touch what the mirror holds keeps it sound. -/
theorem Sound.kept {w w' : World} (sound : Sound w) (moves : Moves w w')
    (bounded : ∀ id host, w'.hosts.get? id = some host → host.start + host.reports.length ≤ u64Bound)
    (latched : w'.mirror.stale = false → w.mirror.stale = false) (source : w'.source = w.source)
    (lastSeq : w'.mirror.lastSeq = w.mirror.lastSeq) (sessions : w'.mirror.sessions = w.mirror.sessions)
    (gone : w'.mirror.gone = w.mirror.gone) : Sound w' where
  carried := moves.carried sound
  bounded := bounded
  fresh := fun fresh => (sound.fresh (latched fresh)).kept moves source lastSeq sessions gone

theorem Moves.same {w w' : World} (hosts : w'.hosts = w.hosts)
    (flight : ∀ message ∈ w'.flight, message ∈ w.flight)
    (handling : ∀ message principal, (message,principal) ∈ w'.handling →
      message ∈ w.flight ∨ (message,principal) ∈ w.handling) : Moves w w' where
  hosts := fun _ host found => ⟨host,hosts ▸ found,.refl host⟩
  flight := fun message member => .inl (flight message member)
  handling := handling

/-- The mirror after a handled batch, if it is fresh. -/
theorem handled_faithful {w w' : World} {message : Message} {principal : String} {batch : LivenessBatch}
    (sound : Sound w) (waiting : (message,principal) ∈ w.handling) (made : w.batch message = some batch)
    (continues : Continues w (.handle message principal)) (hosts : w'.hosts = w.hosts)
    (mirror : w'.mirror = (sessionLiveness w.mirror batch message.route principal fun _ => 0).state)
    (source : w'.source = if batch.snapshot then some (message.host,message.index) else w.source)
    (fresh : w'.mirror.stale = false) : Faithful w' := by
  obtain ⟨host,found,within⟩ := sound.carried message (.inr ⟨principal,waiting⟩)
  have made_by : host.batch message.index = some batch := by simpa [World.batch,found] using made
  obtain ⟨report,reported,rfl⟩ := Host.batch_some made_by
  have bound := sound.bounded _ host found
  have heard : w.mirror.stale = false → w.mirror.lastSeq ≠ none := by
    intro before
    obtain ⟨_,_,_,_,_,_,_,_,number,_⟩ := sound.fresh before
    simp [number]
  rw [mirror] at fresh
  obtain ⟨base,number,applied,snapshot | delta⟩ := sessionLiveness_cases heard fresh
  · obtain ⟨full,empty,forgotten⟩ := snapshot
    refine ⟨message.host,host,message.index,message.index,by rw [source]; exact if_pos full,hosts ▸ found,le_rfl,within,?_,
      ?_,?_⟩
    · rw [mirror,applied,(entries_latch _ _ _).2.1,number]
    · rw [mirror,applied,entries_sessions,empty,Host.table_snapshot reported full]
    · intro key has
      rw [mirror,applied] at has
      rw [Host.between_self reported]
      rcases entries_gone has with told | ⟨_,before⟩
      · exact told
      · rw [forgotten] at before
        cases before
  · obtain ⟨partly,before,same,kept,remembers,last,at_last,above,following⟩ := delta
    obtain ⟨_,origin,since,upto,from_host,held,ordered,reached,number',table,remembered⟩ := sound.fresh before
    have last_is : last = origin.start + upto := Option.some.inj (at_last.symm.trans number')
    dsimp only at partly above following number
    have next_is : host.start + message.index = last + 1 := by
      rw [Nat.mod_eq_of_lt (by omega)] at following
      exact following
    have owner := continues _ last made before same partly at_last next_is
    rw [from_host] at owner
    cases Option.some.inj owner
    obtain rfl : origin = host := Option.some.inj (held.symm.trans found)
    obtain index_is : message.index = upto + 1 := by omega
    rw [index_is] at reported within number
    refine ⟨message.host,origin,since,upto + 1,by simp [source,partly,from_host],hosts ▸ found,by omega,within,?_,
      ?_,?_⟩
    · rw [mirror,applied,(entries_latch _ _ _).2.1,number]
    · rw [mirror,applied,entries_sessions,kept,table,Host.table_next reported partly]
    · intro key has
      rw [mirror,applied] at has
      rw [Host.between_next reported ordered,latest_append]
      rcases entries_gone has with told | ⟨silent,earlier⟩
      · simp [told]
      · rw [remembers] at earlier
        simp [silent,remembered key earlier]

theorem onBind_sound {w : World} (sound : Sound w) (route : Nat) (principal : String) :
    Sound (onBind w route principal) := by
  refine sound.kept (.same rfl (fun _ member => member) fun _ _ member => .inr member) sound.bounded ?_ rfl rfl
    rfl rfl
  intro fresh
  exact (Bool.or_eq_false_iff.mp fresh).1

theorem onRouteGone_sound {w : World} (sound : Sound w) (route : Nat) : Sound (onRouteGone w route) := by
  refine sound.kept (.same rfl (fun _ member => member) fun _ _ member => .inr member) sound.bounded ?_ rfl rfl
    rfl rfl
  intro fresh
  exact (Bool.or_eq_false_iff.mp fresh).1

/-- A host that starts is another one than those the mirror was fed by. -/
theorem startHost_sound {w : World} (sound : Sound w) {id start : Nat} (initial : Sessions)
    (free : w.hosts.get? id = none) (room : start < u64Bound) :
    Sound { w with hosts := w.hosts.insert id (.begin start initial) } := by
  have hosts : ∀ other host, w.hosts.get? other = some host →
      ∃ later, (w.hosts.insert id (.begin start initial)).get? other = some later ∧ host.Extends later := by
    intro other host found
    have apart : other ≠ id := by
      rintro rfl
      rw [free] at found
      cases found
    exact ⟨host,by simp [apart,found],.refl host⟩
  refine sound.kept ⟨hosts,fun _ member => .inl member,fun _ _ member => .inr member⟩ ?_ (fun fresh => fresh)
    rfl rfl rfl rfl
  intro other host found
  rw [Table.get?_insert] at found
  split at found
  next =>
    cases found
    simpa [Host.begin] using room.le
  next => exact sound.bounded other host found

/-- A report that is sent extends its host's stream. -/
theorem send_sound {w : World} (sound : Sound w) {sender route : Nat} {host : Host} {report : Report}
    (found : w.hosts.get? sender = some host)
    (honest : report.snapshot = true → changes ∅ report.sessions = host.table host.reports.length)
    (room : host.start + host.reports.length < u64Bound) :
    Sound { w with
      hosts := w.hosts.insert sender (host.add report honest)
      flight := ⟨sender,host.reports.length,route⟩ :: w.flight } := by
  have hosts : ∀ id old, w.hosts.get? id = some old → ∃ later,
      (w.hosts.insert sender (host.add report honest)).get? id = some later ∧ old.Extends later := by
    intro id old held
    by_cases same : id = sender
    · subst same
      cases found.symm.trans held
      exact ⟨_,by simp,.add honest⟩
    · exact ⟨old,by simp [same,held],.refl old⟩
  refine sound.kept ⟨hosts,?_,fun _ _ member => .inr member⟩ ?_ (fun fresh => fresh) rfl rfl rfl rfl
  · intro message member
    rcases List.mem_cons.mp member with rfl | before
    · exact .inr ⟨host.add report honest,by simp,by simp [Host.add]⟩
    · exact .inl before
  · intro id old held
    rw [Table.get?_insert] at held
    split at held
    next =>
      cases held
      simp only [Host.add,List.length_append,List.length_singleton]
      omega
    next => exact sound.bounded id old held

theorem next_sound {w w' : World} {label : Label} (sound : Sound w) (continues : Continues w label)
    (taken : next w label = some w') : Sound w' := by
  cases label with
  | startHost id start initial =>
    simp only [next] at taken
    split at taken
    next => cases taken
    next free =>
      cases taken
      simp only [Bool.or_eq_true,not_or,decide_eq_true_eq,not_le,Table.has,Option.not_isSome_iff_eq_none] at free
      exact startHost_sound sound initial free.1 free.2
  | send sender route report =>
    simp only [next,Option.bind_eq_some_iff] at taken
    obtain ⟨host,found,taken⟩ := taken
    split at taken
    next honest =>
      split at taken
      next room => cases taken; exact send_sound sound found honest room
      next => cases taken
    next => cases taken
  | lose message =>
    cases taken
    exact sound.kept (.same rfl (fun _ member => List.mem_of_mem_erase member) fun _ _ member => .inr member)
      sound.bounded (fun fresh => fresh) rfl rfl rfl rfl
  | bind route principal => cases taken; exact onBind_sound sound route principal
  | routeGone route => cases taken; exact onRouteGone_sound sound route
  | arrive message provider =>
    simp only [next] at taken
    split at taken
    next flying =>
      split at taken <;> cases taken
      · refine sound.kept (.same rfl (fun _ member => List.mem_of_mem_erase member) ?_) sound.bounded
          (fun fresh => fresh) rfl rfl rfl rfl
        intro other principal member
        rcases List.mem_cons.mp member with same | before
        · cases same; exact .inl flying
        · exact .inr before
      · exact sound.kept (.same rfl (fun _ member => List.mem_of_mem_erase member) fun _ _ member => .inr member)
          sound.bounded (fun fresh => fresh) rfl rfl rfl rfl
    next => cases taken
  | handle message principal =>
    simp only [next] at taken
    split at taken
    next waiting =>
      obtain ⟨batch,made,rfl⟩ := Option.map_eq_some_iff.mp taken
      refine ⟨?_,sound.bounded,?_⟩
      · exact Moves.carried (w := w) (.same rfl (fun _ member => member) fun _ _ member =>
          .inr (List.mem_of_mem_erase member)) sound
      · exact handled_faithful sound waiting made continues rfl rfl rfl
    next => cases taken
  | restart =>
    cases taken
    refine ⟨?_,sound.bounded,fun wrong => by cases wrong⟩
    exact Moves.carried (w := w) (.same rfl (fun _ member => member) fun _ _ member => by cases member) sound

theorem reached_sound {w : World} (reached : Reach next Continues World.start w) : Sound w :=
  reached.invariant Sound Sound.start fun _ _ _ sound continues taken => next_sound sound continues taken

/-- The latest report in the later part of a history is the latest of all. -/
theorem latest_whole {host : Host} {since upto : Nat} {key : SessionKey} {state : String}
    (reported : latest (host.between since upto) key = some state) :
    latest (host.between 0 upto) key = some state := by
  have parts : host.between 0 upto =
      ((host.reports.take (upto + 1)).take since).flatMap (·.sessions) ++ host.between since upto := by
    rw [Host.between,Host.between,List.drop_zero,← List.flatMap_append,List.take_append_drop]
  rw [parts,latest_append,reported]
  rfl

theorem answer_stale {state : LivenessState} (stale : state.stale = true) (key : SessionKey) :
    (state.answer key).state = "unknown" := by
  simp [LivenessState.answer,stale,LivenessAnswer.unknown]

theorem answer_gone {state : LivenessState} {key : SessionKey} (gone : (state.answer key).state = "gone") :
    state.stale = false ∧ state.gone.has key = true := by
  rw [LivenessState.answer] at gone
  split at gone
  next => simp [LivenessAnswer.unknown] at gone
  next fresh =>
    split at gone
    next => split at gone <;> simp [LivenessAnswer.unknown] at gone
    next =>
      split at gone
      next has => exact ⟨by simpa using fresh,has⟩
      next => simp [LivenessAnswer.unknown] at gone

theorem unlatched {w w' : World} {label : Label} (taken : next w label = some w')
    (stale : w.mirror.stale = true) (fresh : w'.mirror.stale = false) :
    ∃ message principal batch, label = .handle message principal ∧ w.batch message = some batch ∧
      batch.snapshot = true := by
  cases label with
  | startHost =>
    simp only [next] at taken
    split at taken <;> cases taken
    simp [stale] at fresh
  | send =>
    simp only [next,Option.bind_eq_some_iff] at taken
    obtain ⟨host,_,taken⟩ := taken
    split at taken
    next => split at taken <;> cases taken; simp [stale] at fresh
    next => cases taken
  | lose => cases taken; simp [stale] at fresh
  | bind => cases taken; simp [onBind,World.latch,stale] at fresh
  | routeGone => cases taken; simp [onRouteGone,World.latch,stale] at fresh
  | arrive =>
    simp only [next] at taken
    split at taken
    next => split at taken <;> cases taken <;> simp [stale] at fresh
    next => cases taken
  | handle message principal =>
    simp only [next] at taken
    split at taken
    next =>
      obtain ⟨batch,made,rfl⟩ := Option.map_eq_some_iff.mp taken
      obtain ⟨_,_,_,⟨full,_⟩ | ⟨_,before,_⟩⟩ := sessionLiveness_cases (by simp [stale]) fresh
      · exact ⟨message,principal,batch,rfl,made,full⟩
      · rw [stale] at before
        cases before
    next => cases taken
  | restart => cases taken; cases fresh

/-- In every run in which no other incarnation continues the numbering, a fresh mirror is
the table of the incarnation it last heard a snapshot of, and no session is answered gone
whose latest report was not. -/
theorem mirror_law {w : World} (reached : Reach next Continues World.start w) :
    (w.mirror.stale = false → Faithful w) ∧
    (w.mirror.stale = true → ∀ bindings : List (Option SessionBinding),
      (∀ bound ∈ bindings, ∃ binding, bound = some binding ∧ binding.harness.isSome = true ∧
        binding.sessionId.isSome = true) →
        ∀ answer ∈ readSessionLiveness w.mirror bindings, answer.state = "unknown") ∧
    (∀ label w', next w label = some w' → w.mirror.stale = true → w'.mirror.stale = false →
      ∃ message principal batch, label = .handle message principal ∧ w.batch message = some batch ∧
        batch.snapshot = true) ∧
    (∀ binding harness sessionId, binding.harness = some harness → binding.sessionId = some sessionId →
      ∀ answer ∈ readSessionLiveness w.mirror [some binding], answer.state = "gone" →
        ∃ id host since upto, w.source = some (id,since) ∧ w.hosts.get? id = some host ∧
          w.mirror.lastSeq = some (host.start + upto) ∧
          latest (host.between 0 upto) (toLex (harness,sessionId)) = some "gone") := by
  have sound := reached_sound reached
  refine ⟨sound.fresh,?_,fun label w' taken stale fresh => unlatched taken stale fresh,?_⟩
  · intro stale bindings registered answer member
    obtain ⟨bound,inside,rfl⟩ := List.mem_map.mp member
    obtain ⟨binding,rfl,has_harness,has_session⟩ := registered bound inside
    obtain ⟨harness,harness_is⟩ := Option.isSome_iff_exists.mp has_harness
    obtain ⟨sessionId,session_is⟩ := Option.isSome_iff_exists.mp has_session
    simp only [harness_is,session_is]
    exact answer_stale stale _
  · intro binding harness sessionId harness_is session_is answer member gone
    simp only [readSessionLiveness,List.map_cons,List.map_nil,harness_is,session_is,
      List.mem_singleton] at member
    subst member
    obtain ⟨fresh,has⟩ := answer_gone gone
    obtain ⟨id,host,since,upto,from_host,found,_,_,number,_,remembered⟩ := sound.fresh fresh
    exact ⟨id,host,since,upto,from_host,found,number,latest_whole (remembered _ has)⟩

/-- The check of one step, for runs that are executed. -/
def continues (w : World) : Label → Bool
  | .handle message principal => match w.batch message with
    | none => true
    | some batch => w.mirror.stale || !w.mirror.sender.all (·.2 == principal) || batch.snapshot ||
        w.mirror.lastSeq.all (fun last => batch.seq != last + 1) || w.source.map (·.1) == some message.host
  | _ => true

theorem continues_correct {w : World} {label : Label} (checked : continues w label = true) :
    Continues w label := by
  cases label with
  | handle message principal =>
    intro batch last made fresh same delta number following
    simp only [continues,made,fresh,same,delta,number,following,Option.all_some,bne_self_eq_false,
      Bool.not_true,Bool.or_self,Bool.false_or,beq_iff_eq] at checked
    exact checked
  | _ => trivial

namespace Restarted

def session (id state : String) : LivenessSession := ⟨"omp",id,"/work",state,1,none,none⟩

def table : Sessions := change ∅ (session "s1" "active")

/-- The first incarnation reports `s1` and then its end. -/
def first : List Label :=
  [.startHost 1 1 table,.bind 1 "reserved:omp",.send 1 1 ⟨true,[session "s1" "active"]⟩,
    .send 1 1 ⟨false,[session "s1" "gone"]⟩,.arrive ⟨1,0,1⟩ (some "omp"),.handle ⟨1,0,1⟩ "reserved:omp",
    .arrive ⟨1,1,1⟩ (some "omp"),.handle ⟨1,1,1⟩ "reserved:omp"]

/-- The second one resumes `s1`; its snapshot is lost, its next batch continues the
numbering, and the first one's route closes late. -/
def second : List Label :=
  [.startHost 2 2 table,.bind 2 "reserved:omp",.send 2 2 ⟨true,[session "s1" "active"]⟩,.lose ⟨2,0,2⟩,
    .send 2 2 ⟨false,[session "s2" "active"]⟩,.arrive ⟨2,1,2⟩ (some "omp"),.handle ⟨2,1,2⟩ "reserved:omp",
    .routeGone 1]

def key : SessionKey := toLex ("omp","s1")

theorem first_faithful : ∃ w, exec next World.start first = some w ∧ Faithful w := by
  have enabled : (exec next World.start first).isSome = true := by decide +kernel
  obtain ⟨w,ran⟩ := Option.isSome_iff_exists.mp enabled
  have admitted : admits next continues World.start first = true := by decide +kernel
  have reached : Reach next Continues World.start w :=
    (admits_reach continues ran admitted).mono fun _ _ checked => continues_correct checked
  have fresh : (exec next World.start first).all (fun w => !w.mirror.stale) = true := by decide +kernel
  rw [ran,Option.all_some,Bool.not_eq_true'] at fresh
  exact ⟨w,ran,(mirror_law reached).1 fresh⟩

theorem restarted : ∃ w, exec next World.start (first ++ second) = some w ∧ w.mirror.stale = false ∧
    (w.mirror.answer key).state = "gone" ∧ w.source = some (1,0) ∧
    (w.hosts.get? 1).map (fun host => (host.start,host.reports.length)) = some (1,2) ∧
    w.mirror.lastSeq = some 3 ∧
    (w.hosts.get? 2).map (fun host => (host.start,latest (host.between 0 1) key)) = some (2,some "active") := by
  have enabled : (exec next World.start (first ++ second)).isSome = true := by decide +kernel
  obtain ⟨w,ran⟩ := Option.isSome_iff_exists.mp enabled
  have facts : (exec next World.start (first ++ second)).all (fun w => decide (w.mirror.stale = false ∧
    (w.mirror.answer key).state = "gone" ∧ w.source = some (1,0) ∧
    (w.hosts.get? 1).map (fun host => (host.start,host.reports.length)) = some (1,2) ∧
    w.mirror.lastSeq = some 3 ∧
    (w.hosts.get? 2).map (fun host => (host.start,latest (host.between 0 1) key)) =
      some (2,some "active"))) = true := by decide +kernel
  rw [ran,Option.all_some,decide_eq_true_eq] at facts
  exact ⟨w,ran,facts⟩

/-- The mirror is fresh and answers `s1` gone, though neither incarnation's table is it:
the first one sent no third batch and the second one reported `s1` active. -/
theorem restarted_unfaithful : ¬ ∀ w, Reach next Free World.start w → w.mirror.stale = false → Faithful w := by
  intro law
  obtain ⟨w,ran,fresh,_,source,host_one,number,_⟩ := restarted
  obtain ⟨id,host,since,upto,from_host,found,_,within,last,_⟩ := law w (exec_reach ran) fresh
  cases source.symm.trans from_host
  rw [found] at host_one
  injection host_one with host_one
  injection host_one with start length
  rw [number,start] at last
  injection last with last
  omega

end Restarted

end Entorhinal.LivenessMirror

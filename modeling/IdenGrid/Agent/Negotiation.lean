import IdenGrid.Agent.Socks

/-! # What negotiation consumes

`negotiate_cases`: whatever the stream delivers, and however it is split into reads, `negotiate` fails,
or it has taken the greeting and the request and nothing else, and returns what `parse_request` makes
of the request. `negotiate_arrives`: where a greeting and a request arrive it does not fail before.

`requests_exact` puts this together with what `parse_request` accepts. -/

namespace IdenGrid.Agent.Socks

open IdenGrid.Lib IdenGrid.Lib.Reads

/-! ## The steps of a conversation -/

section Steps

variable {α β : Type}

theorem run_bind (x : Conversation α) (f : α → Conversation β) (s : Socket) :
    (x >>= f) s = match x s with
      | (.ok a, s') => f a s'
      | (.error e, s') => (.error e, s') := by
  show (ExceptT.bind x f) s = _
  unfold ExceptT.bind ExceptT.mk ExceptT.bindCont
  show (StateT.bind _ _) s = _
  unfold StateT.bind
  show (match x s with | (a, s) => _) = _
  rcases x s with ⟨_ | a, s'⟩ <;> rfl

variable {s s' : Socket}

theorem run_ok {x : Conversation α} {f : α → Conversation β} {a : α} (h : x s = (.ok a, s')) :
    (x >>= f) s = f a s' := by
  rw [run_bind, h]

theorem run_error {x : Conversation α} {f : α → Conversation β} {e : Fault}
    (h : x s = (.error e, s')) : (x >>= f) s = (.error e, s') := by
  rw [run_bind, h]

/-- The stream with another rest to read. -/
def Socket.reads (s : Socket) (rest : List (Option (List UInt8))) : Socket :=
  { s with incoming := rest }

@[simp] theorem reads_reads (s : Socket) (rest rest' : List (Option (List UInt8))) :
    (s.reads rest).reads rest' = s.reads rest' := rfl

/-- The stream after the act has been written to it. -/
def Socket.writes (s : Socket) (act : Act) : Socket :=
  { s with room := s.room - act.bytes.length, log := s.log ++ [act] }

theorem readExact_cases (n : ℕ) (s : Socket) :
    (∃ got rest, readExact n s = (.ok got, s.reads rest) ∧ got.length = n ∧
      Took s.incoming got rest) ∨ ∃ rest, readExact n s = (.error .io, s.reads rest) := by
  rcases hread : Reads.readExact n s.incoming with ⟨_ | got, rest⟩
  · refine Or.inr ⟨rest, ?_⟩
    unfold readExact
    rw [hread]
    rfl
  · obtain ⟨hlen, htook⟩ := readExact_took hread
    refine Or.inl ⟨got, rest, ?_, hlen, htook⟩
    unfold readExact
    rw [hread]
    rfl

theorem readExact_arrives {got more : List UInt8} (h : arriving s.incoming = got ++ more) :
    ∃ rest, readExact got.length s = (.ok got, s.reads rest) ∧ arriving rest = more := by
  obtain ⟨rest, hread, hrest⟩ := readExact_ok h
  refine ⟨rest, ?_, hrest⟩
  unfold readExact
  rw [hread]
  rfl

theorem writeAll_ok {act : Act} (h : act.bytes.length ≤ s.room) :
    writeAll act s = (.ok (), s.writes act) := if_pos h

theorem writeAll_cases (act : Act) (s : Socket) :
    writeAll act s = (.ok (), s.writes act) ∨
      writeAll act s = (.error .io, { s with room := 0 }) := by
  by_cases h : act.bytes.length ≤ s.room
  · exact Or.inl (writeAll_ok h)
  · exact Or.inr (if_neg h)

theorem pass_ok {r : Except Fault α} {a : α} (h : r = .ok a) (s : Socket) :
    pass r s = (.ok a, s) := by
  unfold pass
  rw [h]

end Steps

/-! ## The request -/

/-- `negotiate` ends before the request has been read. -/
def Ends {α : Type} (x : Conversation α) (s : Socket) : Prop :=
  ∃ e s', x s = (.error e, s') ∧ e ≠ .panic

theorem Ends.first {α β : Type} {x : Conversation α} {f : α → Conversation β} {s : Socket}
    (h : Ends x s) : Ends (x >>= f) s := by
  obtain ⟨e, s', hx, he⟩ := h
  exact ⟨e, s', run_error hx, he⟩

theorem Ends.later {α β : Type} {x : Conversation α} {f : α → Conversation β} {s s' : Socket}
    {a : α} (hx : x s = (.ok a, s')) (h : Ends (f a) s') : Ends (x >>= f) s := by
  obtain ⟨e, s'', hf, he⟩ := h
  exact ⟨e, s'', (run_ok hx).trans hf, he⟩

theorem ends_io {α : Type} {x : Conversation α} {s s' : Socket} (h : x s = (.error .io, s')) :
    Ends x s := ⟨.io, s', h, fun heq => Fault.noConfusion heq⟩

/-- The requests of exact length, by their address type. -/
theorem ExactLength.cases {request : List UInt8} (h : ExactLength request) :
    ∃ x y z, (∃ kind tail, request = [x, y, z, kind] ++ tail ∧
        ((kind = 1 ∧ tail.length = 6) ∨ (kind = 4 ∧ tail.length = 18))) ∨
      ∃ len tail, request = [x, y, z, 3] ++ ([len] ++ tail) ∧ tail.length = len.toNat + 2 := by
  unfold ExactLength at h
  rcases request with _ | ⟨x, _ | ⟨y, _ | ⟨z, _ | ⟨kind, body⟩⟩⟩⟩
  · simp [requestLength] at h
  · simp [requestLength] at h
  · simp [requestLength] at h
  · simp [requestLength] at h
  · simp only [requestLength, List.length_cons] at h
    refine ⟨x, y, z, ?_⟩
    split_ifs at h with h1 h4 h3
    · exact Or.inl ⟨kind, body, rfl, Or.inl ⟨h1, by injection h; omega⟩⟩
    · exact Or.inl ⟨kind, body, rfl, Or.inr ⟨h4, by injection h; omega⟩⟩
    · obtain ⟨len, hlen, hn⟩ := Option.map_eq_some_iff.mp h
      cases body with
      | nil => simp at hlen
      | cons b tail =>
        obtain rfl := Option.some.inj hlen
        refine Or.inr ⟨b, tail, by rw [h3]; rfl, ?_⟩
        rw [List.length_cons] at hn
        omega

theorem tailLength_ip {kind : UInt8} {n : ℕ} (h : kind = 1 ∧ n = 6 ∨ kind = 4 ∧ n = 18)
    (s : Socket) : tailLength kind s = (.ok n, s) := by
  obtain ⟨rfl, rfl⟩ | ⟨rfl, rfl⟩ := h
  · rfl
  · rfl

theorem readU8_ok {s : Socket} {len : UInt8} {rest : List (Option (List UInt8))}
    (h : readExact 1 s = (.ok [len], s.reads rest)) : readU8 s = (.ok len, s.reads rest) :=
  (run_ok h).trans (pass_ok rfl _)

theorem tailLength_hostname {s : Socket} {len : UInt8} {rest : List (Option (List UInt8))}
    (h : readExact 1 s = (.ok [len], s.reads rest)) :
    tailLength 3 s = (.ok (len.toNat + 2), s.reads rest) := by
  show (readU8 >>= fun len => pure (len.toNat + 2)) s = _
  rw [run_ok (readU8_ok h)]
  rfl

theorem requestHead_hostname (x y z len : UInt8) :
    requestHead [x, y, z, 3] 3 (len.toNat + 2) = .ok ([x, y, z, 3] ++ [len]) := by
  have hlen : tryFromU8 (len.toNat + 2 - 2) = .ok len := by
    unfold tryFromU8
    rw [Nat.add_sub_cancel, if_pos len.toNat_lt, UInt8.ofNat_toNat]
  unfold requestHead
  rw [if_pos rfl, hlen]
  rfl

theorem requestHead_ip {kind : UInt8} (h : kind ≠ 3) (head : List UInt8) (n : ℕ) :
    requestHead head kind n = .ok head := if_neg h

theorem tailLength_unsupported {kind : UInt8} (h1 : kind ≠ 1) (h4 : kind ≠ 4) (h3 : kind ≠ 3) :
    tailLength kind = sendReply 8 >>= fun _ => throw (.bail "unsupported address type") := by
  unfold tailLength
  rw [if_neg h1, if_neg h4, if_neg h3]

section Head

variable {s s' : Socket} {rest : List (Option (List UInt8))} {x y z kind : UInt8}

/-- The request once its head has been read. -/
theorem readRequest_head {n : ℕ} {front : List UInt8}
    (hhead : readExact 4 s = (.ok [x, y, z, kind], s.reads rest))
    (htail : tailLength kind (s.reads rest) = (.ok n, s'))
    (hfront : requestHead [x, y, z, kind] kind n = .ok front) :
    readRequest s = (readExact n >>= fun tail => pass (parseRequest (front ++ tail))) s' := by
  have hkind : index [x, y, z, kind] 3 = .ok kind := rfl
  unfold readRequest
  rw [run_ok hhead, run_ok (pass_ok hkind _), run_ok htail, run_ok (pass_ok hfront s')]

theorem readRequest_fails {e : Fault}
    (hhead : readExact 4 s = (.ok [x, y, z, kind], s.reads rest))
    (htail : tailLength kind (s.reads rest) = (.error e, s')) : readRequest s = (.error e, s') := by
  have hkind : index [x, y, z, kind] 3 = .ok kind := rfl
  unfold readRequest
  rw [run_ok hhead, run_ok (pass_ok hkind _), run_error htail]

end Head

/-- **The request is taken as a whole, or `negotiate` ends before it.** -/
theorem readRequest_cases (s : Socket) : Ends readRequest s ∨
    ∃ request rest, ExactLength request ∧ Took s.incoming request rest ∧
      readRequest s = (parseRequest request, s.reads rest) := by
  obtain ⟨head, rest, hhead, hlen, htook⟩ | ⟨rest, hfail⟩ := readExact_cases 4 s
  swap
  · exact Or.inl (ends_io hfail).first
  obtain ⟨x, y, z, kind, t, rfl⟩ := exists_four (Nat.le_of_eq hlen.symm)
  obtain rfl : t = [] := by
    simp only [List.length_cons] at hlen
    exact List.length_eq_zero_iff.mp (by omega)
  -- The tail of the request, once its length is known.
  have tail : ∀ {n front taken rest'}, Took s.incoming taken rest' →
      tailLength kind (s.reads rest) = (.ok n, s.reads rest') →
        requestHead [x, y, z, kind] kind n = .ok front → taken = front →
          (∀ tail : List UInt8, tail.length = n → ExactLength (front ++ tail)) →
            Ends readRequest s ∨ ∃ request rest, ExactLength request ∧
              Took s.incoming request rest ∧ readRequest s = (parseRequest request, s.reads rest) := by
    intro n front taken rest' htaken htail hfront heq hexact
    subst heq
    have hrun := readRequest_head hhead htail hfront
    obtain ⟨got, rest'', hgot, hn, htook'⟩ | ⟨rest'', hfail⟩ := readExact_cases n (s.reads rest')
    · refine Or.inr ⟨taken ++ got, rest'', hexact got hn, htaken.trans htook', ?_⟩
      rw [hrun, run_ok hgot]
      rfl
    · refine Or.inl ⟨.io, _, hrun.trans (run_error hfail), fun heq => Fault.noConfusion heq⟩
  by_cases h1 : kind = 1
  · subst h1
    exact tail htook (tailLength_ip (Or.inl ⟨rfl, rfl⟩) _) (requestHead_ip (by decide) _ _) rfl
      fun t ht => by show some 10 = some (t.length + 4); rw [ht]
  by_cases h4 : kind = 4
  · subst h4
    exact tail htook (tailLength_ip (Or.inr ⟨rfl, rfl⟩) _) (requestHead_ip (by decide) _ _) rfl
      fun t ht => by show some 22 = some (t.length + 4); rw [ht]
  by_cases h3 : kind = 3
  · subst h3
    obtain ⟨got, rest', hgot, hone, htook'⟩ | ⟨rest', hfail⟩ := readExact_cases 1 (s.reads rest)
    · obtain ⟨len, rfl⟩ := List.length_eq_one_iff.mp hone
      refine tail (htook.trans htook') (tailLength_hostname hgot) (requestHead_hostname x y z len) rfl
        fun t ht => ?_
      show some (7 + len.toNat) = some (t.length + 5)
      rw [ht]
      congr 1
      omega
    · have hu8 : readU8 (s.reads rest) = (.error .io, s.reads rest') := run_error hfail
      have htail : tailLength 3 (s.reads rest) = (.error .io, s.reads rest') := run_error hu8
      exact Or.inl (ends_io (readRequest_fails hhead htail))
  · -- The address type is not supported.
    left
    have heq := tailLength_unsupported h1 h4 h3
    rcases writeAll_cases (.reply 8) (s.reads rest) with hsent | hfail
    · have htail : tailLength kind (s.reads rest) =
          (.error (.bail "unsupported address type"),
            (s.reads rest).writes (.reply 8)) := by
        rw [heq]
        exact run_ok hsent
      exact ⟨_, _, readRequest_fails hhead htail, fun h => Fault.noConfusion h⟩
    · have htail : tailLength kind (s.reads rest) =
          (.error .io, { s.reads rest with room := 0 }) := by
        rw [heq]
        exact run_error hfail
      exact ends_io (readRequest_fails hhead htail)

/-- **A request that arrives is read**, whatever the split. -/
theorem readRequest_arrives {s : Socket} {request more : List UInt8} (hexact : ExactLength request)
    (h : arriving s.incoming = request ++ more) :
    ∃ rest, readRequest s = (parseRequest request, s.reads rest) ∧ arriving rest = more := by
  obtain ⟨x, y, z, ⟨kind, tail, rfl, hkind⟩ | ⟨len, tail, rfl, htail⟩⟩ := hexact.cases
  · rw [List.append_assoc] at h
    obtain ⟨rest, hhead, hrest⟩ := readExact_arrives h
    obtain ⟨rest', hread, hrest'⟩ := readExact_arrives (s := s.reads rest) hrest
    have h3 : kind ≠ 3 := by
      rintro rfl
      obtain ⟨hk, -⟩ | ⟨hk, -⟩ := hkind
      · exact absurd hk (by decide)
      · exact absurd hk (by decide)
    refine ⟨rest', ?_, hrest'⟩
    rw [readRequest_head hhead (tailLength_ip hkind _) (requestHead_ip h3 _ _), run_ok hread]
    rfl
  · rw [List.append_assoc, List.append_assoc] at h
    obtain ⟨rest, hhead, hrest⟩ := readExact_arrives h
    obtain ⟨rest', hlen, hrest'⟩ := readExact_arrives (s := s.reads rest) hrest
    obtain ⟨rest'', hread, hrest''⟩ := readExact_arrives (s := s.reads rest') hrest'
    rw [htail] at hread
    refine ⟨rest'', ?_, hrest''⟩
    rw [readRequest_head hhead (tailLength_hostname hlen) (requestHead_hostname x y z len)]
    show (readExact (len.toNat + 2) >>= _) (s.reads rest') = _
    rw [run_ok hread]
    rfl

/-! ## The greeting -/

/-- A greeting that offers to go on without authentication. -/
def Greeting (greeting : List UInt8) : Prop :=
  ∃ count methods, greeting = [5, count] ++ methods ∧ methods.length = count.toNat ∧
    count ≠ 0 ∧ 0 ∈ methods

section Greeted

variable {s : Socket} {rest rest' : List (Option (List UInt8))} {version count : UInt8}
  {methods : List UInt8}

/-- `negotiate` once the greeting has been read. -/
theorem negotiate_greeted (hgreeting : readExact 2 s = (.ok [version, count], s.reads rest))
    (h : ¬ (version ≠ 5 ∨ count = 0))
    (hmethods : readExact count.toNat (s.reads rest) = (.ok methods, s.reads rest'))
    (hzero : 0 ∈ methods) :
    negotiate s = (writeAll (.method 0) >>= fun _ => readRequest) (s.reads rest') := by
  have hversion : index [version, count] 0 = .ok version := rfl
  have hcount : index [version, count] 1 = .ok count := rfl
  unfold negotiate
  rw [run_ok hgreeting, run_ok (pass_ok hversion _), run_ok (pass_ok hcount _), if_neg h,
    run_ok hmethods, if_neg (not_not.mpr hzero)]

/-- `negotiate` without the method that it accepts. -/
theorem negotiate_noMethod (hgreeting : readExact 2 s = (.ok [version, count], s.reads rest))
    (h : ¬ (version ≠ 5 ∨ count = 0))
    (hmethods : readExact count.toNat (s.reads rest) = (.ok methods, s.reads rest'))
    (hzero : 0 ∉ methods) :
    negotiate s =
      (writeAll (.method 255) >>= fun _ => throw (.bail "no-auth method unavailable"))
        (s.reads rest') := by
  have hversion : index [version, count] 0 = .ok version := rfl
  have hcount : index [version, count] 1 = .ok count := rfl
  unfold negotiate
  rw [run_ok hgreeting, run_ok (pass_ok hversion _), run_ok (pass_ok hcount _), if_neg h,
    run_ok hmethods, if_pos hzero]

theorem negotiate_ends_before (hgreeting : readExact 2 s = (.ok [version, count], s.reads rest))
    (h : version ≠ 5 ∨ count = 0) : Ends negotiate s := by
  have hversion : index [version, count] 0 = .ok version := rfl
  have hcount : index [version, count] 1 = .ok count := rfl
  refine ⟨.bail "invalid SOCKS greeting", s.reads rest, ?_, fun h => Fault.noConfusion h⟩
  unfold negotiate
  rw [run_ok hgreeting, run_ok (pass_ok hversion _), run_ok (pass_ok hcount _), if_pos h]
  rfl

theorem negotiate_ends_methods (hgreeting : readExact 2 s = (.ok [version, count], s.reads rest))
    (h : ¬ (version ≠ 5 ∨ count = 0)) (hmethods : Ends (readExact count.toNat) (s.reads rest)) :
    Ends negotiate s := by
  have hversion : index [version, count] 0 = .ok version := rfl
  have hcount : index [version, count] 1 = .ok count := rfl
  refine .later hgreeting (.later (pass_ok hversion _) (.later (pass_ok hcount _) ?_))
  rw [if_neg h]
  exact hmethods.first

end Greeted

theorem writes_reads (s : Socket) (act : Act) (rest : List (Option (List UInt8))) :
    (s.reads rest).writes act = (s.writes act).reads rest := rfl

/-- **What `negotiate` consumes**: the greeting and the request, or it fails before. -/
theorem negotiate_cases (s : Socket) : Ends negotiate s ∨
    ∃ greeting request rest, Greeting greeting ∧ ExactLength request ∧
      Took s.incoming (greeting ++ request) rest ∧
        negotiate s = (parseRequest request, (s.writes (.method 0)).reads rest) := by
  obtain ⟨greeting, rest, hgreeting, hlen, htook⟩ | ⟨rest, hfail⟩ := readExact_cases 2 s
  swap
  · exact Or.inl (ends_io hfail).first
  obtain ⟨version, count, rfl⟩ := List.length_eq_two.mp hlen
  by_cases hbad : version ≠ 5 ∨ count = 0
  · exact Or.inl (negotiate_ends_before hgreeting hbad)
  obtain ⟨methods, rest', hmethods, hcount, htook'⟩ | ⟨rest', hfail⟩ :=
    readExact_cases count.toNat (s.reads rest)
  swap
  · exact Or.inl (negotiate_ends_methods hgreeting hbad (ends_io hfail))
  rw [reads_reads] at hmethods
  by_cases hzero : 0 ∈ methods
  swap
  · left
    have hrun := negotiate_noMethod hgreeting hbad hmethods hzero
    rcases writeAll_cases (.method 255) (s.reads rest') with hsent | hfail
    · exact ⟨.bail "no-auth method unavailable", _, hrun.trans (run_ok hsent),
        fun h => Fault.noConfusion h⟩
    · exact ends_io (hrun.trans (run_error hfail))
  have hrun := negotiate_greeted hgreeting hbad hmethods hzero
  rcases writeAll_cases (.method 0) (s.reads rest') with hsent | hfail
  swap
  · exact Or.inl ⟨.io, _, hrun.trans (run_error hfail), fun h => Fault.noConfusion h⟩
  rw [run_ok hsent] at hrun
  rcases readRequest_cases ((s.reads rest').writes (.method 0)) with
    ⟨e, s', hend, he⟩ | ⟨request, rest'', hexact, htook'', hrequest⟩
  · exact Or.inl ⟨e, s', hrun.trans hend, he⟩
  · obtain ⟨hversion, hpositive⟩ := not_or.mp hbad
    obtain rfl := not_not.mp hversion
    exact Or.inr ⟨[5, count] ++ methods, request, rest'',
      ⟨count, methods, rfl, hcount, hpositive, hzero⟩, hexact, (htook.trans htook').trans htook'',
      hrun.trans hrequest⟩

/-- The greeting that arrives is read and answered. -/
theorem negotiate_greets {s : Socket} {greeting more : List UInt8} (hgreeting : Greeting greeting)
    (h : arriving s.incoming = greeting ++ more) (hroom : 2 ≤ s.room) :
    ∃ rest, negotiate s = readRequest ((s.writes (.method 0)).reads rest) ∧ arriving rest = more := by
  obtain ⟨count, methods, rfl, hcount, hpositive, hzero⟩ := hgreeting
  rw [List.append_assoc] at h
  obtain ⟨rest, hread, hrest⟩ := readExact_arrives h
  obtain ⟨rest', hmethods, hrest'⟩ := readExact_arrives (s := s.reads rest) hrest
  rw [hcount] at hmethods
  refine ⟨rest', ?_, hrest'⟩
  have hgood : ¬ ((5 : UInt8) ≠ 5 ∨ count = 0) :=
    not_or.mpr ⟨not_not.mpr rfl, hpositive⟩
  have hsent : writeAll (.method 0) (s.reads rest') = (.ok (), (s.reads rest').writes (.method 0)) :=
    writeAll_ok hroom
  rw [negotiate_greeted hread hgood hmethods hzero, run_ok hsent, writes_reads]

/-- **A greeting and a request that arrive are read**, whatever the split, and nothing after them. -/
theorem negotiate_arrives {s : Socket} {greeting request more : List UInt8}
    (hgreeting : Greeting greeting) (hexact : ExactLength request)
    (h : arriving s.incoming = greeting ++ (request ++ more)) (hroom : 2 ≤ s.room) :
    ∃ rest, negotiate s = (parseRequest request, (s.writes (.method 0)).reads rest) ∧
      arriving rest = more := by
  obtain ⟨rest, hrun, hrest⟩ := negotiate_greets hgreeting h hroom
  obtain ⟨rest', hread, hrest'⟩ :=
    readRequest_arrives (s := (s.writes (.method 0)).reads rest) hexact hrest
  exact ⟨rest', hrun.trans hread, hrest'⟩

theorem negotiate_safe (s : Socket) : (negotiate s).1 ≠ .error .panic := by
  rcases negotiate_cases s with ⟨e, s', hrun, he⟩ | ⟨_, request, _, _, _, _, hrun⟩
  · rw [hrun]
    exact fun heq => he (Except.error.inj heq)
  · rw [hrun]
    exact parseRequest_safe request

/-- **Negotiation consumes exactly the protocol bytes.** It fails or has taken the greeting and the
request, whose target it returns; a greeting and a request that arrive are read as a whole under
every split into reads. Nothing is read out of bounds, what is accepted at its exact length is the
request of a permitted target, and the target comes back with its hostname in lower case. -/
theorem requests_exact :
    (∀ s : Socket, (∃ e, (negotiate s).1 = .error e) ∨
      ∃ greeting request target, Greeting greeting ∧ ExactLength request ∧
        Took s.incoming (greeting ++ request) (negotiate s).2.incoming ∧
          (negotiate s).1 = .ok target ∧ parseRequest request = .ok target) ∧
    (∀ (s : Socket) (greeting request more : List UInt8), Greeting greeting →
      ExactLength request → arriving s.incoming = greeting ++ (request ++ more) → 2 ≤ s.room →
        (negotiate s).1 = parseRequest request ∧ arriving (negotiate s).2.incoming = more) ∧
    (∀ s : Socket, (negotiate s).1 ≠ .error .panic) ∧
    (∀ bytes : List UInt8, parseRequest bytes ≠ .error .panic) ∧
    (∀ bytes : List UInt8, ExactLength bytes →
      ((∃ t, parseRequest bytes = .ok t) ↔
        ∃ target : Target, target.Permitted ∧ encode target = some bytes)) ∧
    (∀ target : Target, target.Permitted → ∃ bytes, encode target = some bytes) ∧
    ∀ (target : Target) (bytes : List UInt8), encode target = some bytes →
      ∀ t, parseRequest bytes = .ok t ↔ target.Permitted ∧ t = target.lowered := by
  refine ⟨fun s => ?_, fun s greeting request more hgreeting hexact harrives hroom => ?_,
    negotiate_safe, parseRequest_safe, fun bytes hexact => ?_, fun target => (·.encode_isSome),
    fun target bytes hencode t => parseRequest_encode hencode⟩
  · rcases negotiate_cases s with ⟨e, s', hrun, -⟩ | ⟨greeting, request, rest, hgreeting, hexact,
      htook, hrun⟩
    · exact Or.inl ⟨e, congrArg Prod.fst hrun⟩
    · rw [hrun]
      cases hparse : parseRequest request with
      | error e => exact Or.inl ⟨e, rfl⟩
      | ok target => exact Or.inr ⟨greeting, request, target, hgreeting, hexact, htook, rfl, hparse⟩
  · obtain ⟨rest, hrun, hrest⟩ := negotiate_arrives hgreeting hexact harrives hroom
    rw [hrun]
    exact ⟨rfl, hrest⟩
  · constructor
    · rintro ⟨t, ht⟩
      obtain ⟨target, hpermitted, hencode, -⟩ := (parseRequest_exact hexact).mp ht
      exact ⟨target, hpermitted, hencode⟩
    · rintro ⟨target, hpermitted, hencode⟩
      exact ⟨target.lowered, (parseRequest_exact hexact).mpr ⟨target, hpermitted, hencode, rfl⟩⟩

/-- The request for `1.1.1.1:80`, split in the middle of the greeting and with data right after it. -/
theorem requests_exact_split :
    (negotiate ⟨[some [5], some [2, 1, 0, 5], some [1, 0, 1, 1, 1, 1, 1, 0, 80, 99], some [98]],
      2, []⟩).1 = parseRequest [5, 1, 0, 1, 1, 1, 1, 1, 0, 80] ∧
    arriving (negotiate ⟨[some [5], some [2, 1, 0, 5],
      some [1, 0, 1, 1, 1, 1, 1, 0, 80, 99], some [98]], 2, []⟩).2.incoming = [99, 98] :=
  requests_exact.2.1 _ [5, 2, 1, 0] [5, 1, 0, 1, 1, 1, 1, 1, 0, 80] [99, 98]
    ⟨2, [1, 0], rfl, rfl, by decide, by decide⟩ rfl rfl (Nat.le_refl 2)

end IdenGrid.Agent.Socks

import Rdnstun.Main.Memory

/-!
# The messages of the option loop

* `hostChainStrerror`, `structStrerror`, `AllocOpt.reason`: the texts for the errors of an option.
* `init_errnum`: the errors of a specification; `option_ret`: those of an option.
* **`explained`**: no option fails with an unknown error, and its errors have different texts.
-/

namespace Rdnstun

open Run

variable {af : Af} {env : Env af} {p p' : Parse af} {n : ℕ}

/-- `Struct_strerror`; `none` is `NULL`. -/
def structStrerror (errnum : ℤ) : Option String :=
  if errnum = -1 then some "out of memory" else none

/-- `HostChain_strerror`. -/
def hostChainStrerror : ℤ → Option String
  | 1 => some "chain is empty"
  | 2 => some "address not in presentation format"
  | 3 => some "address range too large"
  | 4 => some "address chain longer than current TTL"
  | 5 => some "Unknown token"
  | 6 => some "Token without a value"
  | 7 => some "TTL not a number or out of range (make chain unreachable)"
  | 8 => some "MTU not a number or out of range ()"
  | 9 => some "route can only be specified once"
  | 10 => some "route not in presentation format"
  | 16 => some "'prefix' must be less or equal than the network prefix"
  | 17 => some "No host to reply"
  | 18 => some "TTL is zero"
  | 19 => some "Host TTL too small"
  | errnum => structStrerror errnum

/-- The `switch` at the label `fail_duplicate`. -/
def duplicateStrerror : ℤ → Option String
  | 1 => some "'E' must be specified after a chain"
  | 2 => some "malformed duplication specification"
  | 3 => some "'prefix' must be less or equal than the prefix of previous chain"
  | errnum => structStrerror errnum

namespace AllocOpt

/-- `optarg`. -/
def optarg : AllocOpt → List Char
  | .chain _ _ s _ => s
  | .dup optarg _ _ => optarg

/-- `msg`, before it is replaced if there is none. -/
def reason : AllocOpt → ℤ → Option String
  | .chain _ _ _ _ => hostChainStrerror
  | .dup _ _ _ => duplicateStrerror

/-- What is printed for an error of the option. -/
def report (opt : AllocOpt) (ret : ℤ) : String :=
  "error when parsing '" ++ String.ofList opt.optarg ++ "': " ++
    (opt.reason ret).getD "unknown error" ++ "\n"

end AllocOpt

/-! ## Errors of a specification -/

/-- The error numbers of `HostChain_init`, but that of an allocation. -/
def IsErrnum (n : ℕ) : Prop := 1 ≤ n ∧ n ≤ 10

instance (n : ℕ) : Decidable (IsErrnum n) := inferInstanceAs (Decidable (_ ∧ _))

theorem initOption_errnum {token value : List Char}
    (h : initOption env p token value = .error (.errnum n)) : IsErrnum n := by
  unfold initOption at h
  split at h
  · cases h
    decide
  split at h
  · split at h
    · cases h
      decide
    · cases h
  split at h
  · split at h
    · cases h
      decide
    · cases h
  split at h
  · split at h
    · cases h
      decide
    · split at h
      · cases h
        decide
      · cases h
  · cases h
    decide

theorem store_ne_errnum {slots : ℕ → FakeHost af} {k : ℕ} {host : FakeHost af} :
    store slots k host ≠ .error (.errnum n) := by
  rw [store]
  split_ifs
  · exact nofun
  · exact nofun

theorem fill_ne_errnum {host : ℕ → FakeHost af} {i count j : ℕ} {slots : ℕ → FakeHost af} :
    fill host i count j slots ≠ .error (.errnum n) := by
  induction count generalizing j slots with
  | zero => exact nofun
  | succ count ih =>
    rw [fill]
    split
    · next hstore =>
      rintro ⟨⟩
      exact store_ne_errnum hstore
    · exact ih

theorem initRange_errnum {first last : Addr af}
    (h : initRange p first last = .error (.errnum n)) : IsErrnum n := by
  unfold initRange at h
  split at h
  · cases h
  split at h
  · cases h
    decide
  dsimp only at h
  split at h
  · split at h
    · next hfill =>
      cases h
      exact absurd hfill fill_ne_errnum
    · cases h
  · cases h
    decide

theorem initAddress_errnum {token : List Char}
    (h : initAddress p token = .error (.errnum n)) : IsErrnum n := by
  unfold initAddress at h
  split at h
  · cases h
    decide
  unfold initHosts at h
  dsimp only at h
  split at h
  · cases h
    decide
  split at h
  · next hstore =>
    cases h
    exact absurd hstore store_ne_errnum
  split at h
  · cases h
  split at h
  · cases h
    decide
  · exact initRange_errnum h

theorem step_errnum {token : List Char} (h : step env p token = .error (.errnum n)) :
    IsErrnum n := by
  unfold step at h
  split at h
  · exact initOption_errnum h
  · exact initAddress_errnum h

/-- **The errors** of a specification. -/
theorem init_errnum {s : List Char} (h : HostChain.init env s = .error (.errnum n)) :
    IsErrnum n := by
  rw [HostChain.init] at h
  split at h
  · next e hparse =>
    cases h
    obtain ⟨p, token, -, hstep⟩ := exists_visits_of_error hparse
    exact step_errnum hstep
  · split_ifs at h with hzero
    cases h
    decide

/-! ## Errors of an option -/

/-- The values of `ret` with which an option goes to a label. -/
def AllocOpt.Fails : AllocOpt → ℤ → Prop
  | .chain _ _ _ _, ret => ret = -1 ∨ ∃ n : ℕ, ret = n ∧ IsErrnum n
  | .dup _ _ _, ret => ret = -1 ∨ ret = 1 ∨ ret = 2 ∨ ret = 3

theorem initFail_ret {heap heap' : Heap} {buf s : Option ℕ} {ret ret' : ℤ}
    (h : heap.initFail buf s ret = .ok (heap', .error (α := Entry af) ret')) : ret' = ret := by
  obtain ⟨heap₁, -, h⟩ := bind_eq_ok h
  obtain ⟨heap₂, -, h⟩ := bind_eq_ok h
  cases h
  rfl

theorem heapInit_ret {heap heap' : Heap} {s : List Char} {ok : Allocs} {ret : ℤ}
    (h : heap.init env s ok = .ok (heap', .error ret)) :
    ret = -1 ∨ ∃ n : ℕ, ret = n ∧ IsErrnum n := by
  rw [Heap.init] at h
  dsimp only at h
  split at h
  · exact .inl (initFail_ret h)
  split at h
  · cases h
  · next n hinit => exact .inr ⟨n, initFail_ret h, init_errnum hinit⟩
  · obtain ⟨heap₁, -, h⟩ := bind_eq_ok h
    split at h
    · obtain ⟨heap₂, -, h⟩ := bind_eq_ok h
      cases h
    · cases h

/-- **The errors** of an option. -/
theorem option_ret {m m' : Machine} {opt : AllocOpt} {ret : ℤ}
    (h : m.option opt = .ok (m', some ret)) : opt.Fails ret := by
  cases opt with
  | chain af env s ok =>
    obtain ⟨⟨heap, v, done⟩, -, h⟩ := bind_eq_ok h
    dsimp only at h
    split at h
    · obtain ⟨⟨heap', r⟩, hinit, h⟩ := bind_eq_ok h
      cases r with
      | error r =>
        obtain ⟨v', -, h⟩ := bind_eq_ok h
        cases h
        exact heapInit_ret hinit
      | ok self =>
        obtain ⟨v', -, h⟩ := bind_eq_ok h
        cases h
    · cases h
      exact .inl rfl
  | dup optarg irealloc malloc =>
    rw [Machine.option, Machine.dup] at h
    dsimp only at h
    split at h
    · cases h
      exact .inr (.inl rfl)
    split at h
    · cases h
      exact .inr (.inr (.inl rfl))
    obtain ⟨⟨heap, v, done⟩, -, h⟩ := bind_eq_ok h
    dsimp only at h
    split at h
    swap
    · cases h
      exact .inl rfl
    obtain ⟨base, -, h⟩ := bind_eq_ok h
    split at h
    · cases h
      exact .inr (.inr (.inr rfl))
    obtain ⟨⟨heap', v', done'⟩, -, h⟩ := bind_eq_ok h
    cases done'
    · cases h
      exact .inl rfl
    · cases h

/-! ## Texts -/

/-- The errors that an option can have. -/
def AllocOpt.errors : AllocOpt → List ℤ
  | .chain _ _ _ _ => [-1, 1, 2, 3, 4, 5, 6, 7, 8, 9, 10]
  | .dup _ _ _ => [-1, 1, 2, 3]

theorem mem_errors {opt : AllocOpt} {ret : ℤ} (h : opt.Fails ret) : ret ∈ opt.errors := by
  cases opt with
  | chain af env s ok =>
    obtain rfl | ⟨n, rfl, hle, hlt⟩ := h
    · exact List.mem_cons_self
    · interval_cases n <;> simp [AllocOpt.errors]
  | dup optarg irealloc malloc =>
    obtain rfl | rfl | rfl | rfl := h <;> simp [AllocOpt.errors]

/-- Every error has a text, and no two have the same. -/
def Distinguishes (strerror : ℤ → Option String) (errors : List ℤ) : Prop :=
  ∀ ret ∈ errors, strerror ret ≠ none ∧ ∀ ret' ∈ errors, strerror ret' = strerror ret → ret' = ret

instance (strerror : ℤ → Option String) (errors : List ℤ) :
    Decidable (Distinguishes strerror errors) := inferInstanceAs (Decidable (∀ _ ∈ _, _))

theorem distinguishes_reason (opt : AllocOpt) : Distinguishes opt.reason opt.errors := by
  cases opt with
  | chain af env s ok =>
    show Distinguishes hostChainStrerror [-1, 1, 2, 3, 4, 5, 6, 7, 8, 9, 10]
    decide
  | dup optarg irealloc malloc =>
    show Distinguishes duplicateStrerror [-1, 1, 2, 3]
    decide

/-- The option is `-E`. -/
def AllocOpt.isDup : AllocOpt → Bool
  | .chain _ _ _ _ => false
  | .dup _ _ _ => true

/-- The two tables share the text of a failed allocation only. -/
theorem hostChainStrerror_ne : ∀ ret ∈ [-1, 1, 2, 3, 4, 5, 6, 7, 8, 9, 10], ∀ ret' ∈ [-1, 1, 2, 3],
    hostChainStrerror ret = duplicateStrerror ret' → ret = -1 ∧ ret' = -1 := by
  decide

/-- **A text** tells the error. -/
theorem eq_of_reason {opt opt' : AllocOpt} {ret ret' : ℤ} (hret : ret ∈ opt.errors)
    (hret' : ret' ∈ opt'.errors) (h : opt'.reason ret' = opt.reason ret) :
    ret' = ret ∧ (opt'.isDup = opt.isDup ∨ ret = -1) := by
  have hsame (hkind : opt'.isDup = opt.isDup) (hreason : opt'.reason = opt.reason)
      (herrors : opt'.errors = opt.errors) :
      ret' = ret ∧ (opt'.isDup = opt.isDup ∨ ret = -1) := by
    rw [hreason] at h
    rw [herrors] at hret'
    exact ⟨(distinguishes_reason opt ret hret).2 ret' hret' h, .inl hkind⟩
  cases opt with
  | chain =>
    cases opt' with
    | chain => exact hsame rfl rfl rfl
    | dup =>
      obtain ⟨rfl, rfl⟩ := hostChainStrerror_ne ret hret ret' hret' h.symm
      exact ⟨rfl, .inr rfl⟩
  | dup =>
    cases opt' with
    | chain =>
      obtain ⟨rfl, rfl⟩ := hostChainStrerror_ne ret' hret' ret hret h
      exact ⟨rfl, .inr rfl⟩
    | dup => exact hsame rfl rfl rfl

/-- **Every failure is explained.** In no state does an option, whichever allocations fail, end with
an error without a text. The text tells the error: another option, in whatever state, that fails
with the same text has the same error, and is of the same kind unless the memory was exhausted. -/
theorem explained {m m' : Machine} {opt : AllocOpt} {ret : ℤ}
    (h : m.option opt = .ok (m', some ret)) : opt.reason ret ≠ none ∧
      ∀ (m₁ m₁' : Machine) (opt₁ : AllocOpt) (ret₁ : ℤ), m₁.option opt₁ = .ok (m₁', some ret₁) →
        opt₁.reason ret₁ = opt.reason ret →
          ret₁ = ret ∧ (opt₁.isDup = opt.isDup ∨ ret = -1) := by
  have hret := mem_errors (option_ret h)
  exact ⟨(distinguishes_reason opt ret hret).1, fun m₁ m₁' opt₁ ret₁ h₁ hreason =>
    eq_of_reason hret (mem_errors (option_ret h₁)) hreason⟩

/-- The option `-4 ttl=` fails for the value that is missing. -/
theorem explained_token : ∃ (m : Machine) (opt : AllocOpt),
    Machine.start.option opt = .ok (m, some 6) ∧ opt.reason 6 ≠ none ∧
      ∀ (m₁ m₁' : Machine) (opt₁ : AllocOpt) (ret₁ : ℤ), m₁.option opt₁ = .ok (m₁', some ret₁) →
        opt₁.reason ret₁ = opt.reason 6 →
          ret₁ = 6 ∧ (opt₁.isDup = opt.isDup ∨ (6 : ℤ) = -1) := by
  have hfail : ∃ m, Machine.start.option
      (.chain .inet (.zeroed .inet) "ttl=".toList ⟨true, true, true, true⟩) = .ok (m, some 6) :=
    ⟨_, rfl⟩
  obtain ⟨m, hm⟩ := hfail
  exact ⟨m, _, hm, explained hm⟩

end Rdnstun

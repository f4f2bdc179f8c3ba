import UnaryC.Proofs.Positions
import UnaryC.Proofs.SingleAssignment

/-!
# Supplies do not know of each other

What a supply hands out depends on how often it was asked before, and on nothing else that was asked
of the pool. So its names are numbered from 0 without a gap and are all different, however its draws
are mixed with those from other supplies. No name is an identifier of a source text.
-/
namespace UnaryC.Tac

/-- A name for a temporary has a dot in it. -/
theorem not_isWord_tempName (n : Nat) : ¬ Lexical.IsWord (tempName n).toList := by
  have hdot : '.' ∈ (tempName n).toList.tail := by
    rw [tempName, String.toList_append]
    exact List.mem_append_left _ (by decide)
  intro hword
  cases hname : (tempName n).toList with
  | nil => rw [hname] at hword; exact hword
  | cons c rest =>
    rw [hname] at hword hdot
    exact absurd (hword.2 '.' hdot) (by decide)

theorem text_ne_tempName {lines : List String} {tokens : List Token}
    (h : Token.scan lines = .ok tokens) {t : Token} (ht : t ∈ tokens)
    (hkind : t.kind = .identifier) (n : Nat) : t.text ≠ some (tempName n) := by
  intro htext
  have hstands : t.StandsIn lines := Token.standsIn_of_scan h ht (by rw [hkind]; decide)
  obtain ⟨text, htext', hlexeme, -⟩ := hstands.exists_text
  obtain rfl : tempName n = text := Option.some.inj (htext.symm.trans htext')
  rw [hkind] at hlexeme
  exact not_isWord_tempName n hlexeme.1

namespace NameSupply

/-- The request can be served after those before it: a name is taken only from a supply that is
there. -/
def Request.Admissible (history : List Request) : Request → Prop
  | create => True
  | draw i => i < history.count .create

/-- The reply that a request has after those before it. -/
def Request.answer (history : List Request) : Request → Reply
  | create => .created (history.count .create)
  | draw i => .name (tempName (history.count (.draw i)))

namespace Pool

/-- The pool is what the requests before have made of the empty one. -/
structure Records (pool : Pool) (history : List Request) : Prop where
  length_eq : pool.length = history.count .create
  issued_eq : ∀ i, pool[i]?.elim 0 issued = history.count (.draw i)

theorem records_nil : Records [] [] :=
  ⟨rfl, fun _ => rfl⟩

theorem serve_draw {pool : Pool} {i : Nat} {s : NameSupply} (h : pool[i]? = some s) :
    serve pool (.draw i) =
      some (.name (tempName s.issued), pool.set i { issued := s.issued + 1 }) := by
  simp [serve, h, fresh]

theorem Records.create {pool : Pool} {history : List Request} (h : pool.Records history) :
    Records (pool ++ [({} : NameSupply)]) (history ++ [.create]) := by
  refine ⟨by simp [h.length_eq], fun i => ?_⟩
  rw [List.count_append, List.count_singleton, ← h.issued_eq i]
  by_cases hi : i < pool.length
  · rw [List.getElem?_append_left hi]
    rfl
  · -- The supply was not there before, and the new one has handed out nothing.
    rw [List.getElem?_append_right (Nat.le_of_not_lt hi),
      List.getElem?_eq_none (Nat.le_of_not_lt hi)]
    cases i - pool.length <;> rfl

theorem Records.draw {pool : Pool} {history : List Request} (h : pool.Records history) {i : Nat}
    {s : NameSupply} (hs : pool[i]? = some s) :
    Records (pool.set i { issued := s.issued + 1 }) (history ++ [.draw i]) := by
  refine ⟨by simp [h.length_eq], fun j => ?_⟩
  rw [List.count_append, List.count_singleton, ← h.issued_eq j]
  by_cases hij : i = j
  · subst hij
    obtain ⟨hi, -⟩ := List.getElem?_eq_some_iff.mp hs
    rw [List.getElem?_set_self hi, hs]
    simp
  · rw [List.getElem?_set_ne hij]
    simp [hij]

/-- A request that can be served has its answer, and the pool goes on recording. -/
theorem Records.serve {pool : Pool} {history : List Request} (h : pool.Records history)
    {request : Request} (hadmissible : request.Admissible history) :
    ∃ pool' : Pool, pool.serve request = some (request.answer history, pool') ∧
      pool'.Records (history ++ [request]) := by
  cases request with
  | create =>
    refine ⟨_, ?_, h.create⟩
    rw [Request.answer, ← h.length_eq]
    rfl
  | draw i =>
    have hi : i < pool.length := by rw [h.length_eq]; exact hadmissible
    have hs : pool[i]? = some pool[i] := List.getElem?_eq_getElem hi
    have hissued : pool[i].issued = history.count (.draw i) := by
      rw [← h.issued_eq i, hs]
      rfl
    refine ⟨_, ?_, h.draw hs⟩
    rw [serve_draw hs, Request.answer, hissued]

/-- Every request has the answer that those before it call for. -/
theorem Records.serveAll {requests : List Request} :
    ∀ {pool : Pool} {history : List Request}, pool.Records history →
      (∀ (j : Nat) (request : Request), requests[j]? = some request →
        request.Admissible (history ++ requests.take j)) →
      ∃ replies, pool.serveAll requests = some replies ∧ replies.length = requests.length ∧
        ∀ (j : Nat) (request : Request), requests[j]? = some request →
          replies[j]? = some (request.answer (history ++ requests.take j)) := by
  induction requests with
  | nil => exact fun _ _ => ⟨[], rfl, rfl, by simp⟩
  | cons request requests ih =>
    intro pool history h hadmissible
    have hfirst := hadmissible 0 request rfl
    rw [List.take_zero, List.append_nil] at hfirst
    obtain ⟨pool', hserve, h'⟩ := h.serve hfirst
    have hlater : ∀ j, history ++ (request :: requests).take (j + 1) =
        history ++ [request] ++ requests.take j := by simp
    obtain ⟨replies, hreplies, hlength, hanswers⟩ := ih h' fun j later hj => by
      rw [← hlater]
      exact hadmissible (j + 1) later hj
    refine ⟨request.answer history :: replies, ?_, by simp [hlength], fun j later hj => ?_⟩
    · simp [Pool.serveAll, hserve, hreplies]
    · cases j with
      | zero =>
        cases hj
        simp
      | succ j =>
        rw [hlater]
        exact hanswers j later hj

end Pool

/-- A supply that is asked again has been asked more often before. -/
theorem count_take_lt {requests : List Request} {request : Request} {j k : Nat}
    (hj : requests[j]? = some request) (hjk : j < k) :
    (requests.take j).count request < (requests.take k).count request := by
  have hnext : (requests.take (j + 1)).count request = (requests.take j).count request + 1 := by
    rw [List.take_add_one, hj, List.count_append]
    simp
  have hmore : (requests.take (j + 1)).count request ≤ (requests.take k).count request :=
    (List.take_sublist_take_left hjk).count_le request
  omega

/-- Requests that take names only from supplies created before are all served. Supplies are numbered
in the order of their creation, and a supply that was asked `k` times before hands out the name with
the number `k`, whatever was asked of the others. So no supply hands out a name twice, and no name
is that of an identifier token. -/
theorem serveAll_numbers_draws (requests : List Request)
    (hcreated : ∀ j i, requests[j]? = some (.draw i) → i < (requests.take j).count .create) :
    ∃ replies, Pool.serveAll [] requests = some replies ∧ replies.length = requests.length ∧
      (∀ j : Nat, requests[j]? = some .create →
        replies[j]? = some (.created ((requests.take j).count .create))) ∧
      (∀ j i : Nat, requests[j]? = some (.draw i) →
        replies[j]? =
          some (.name ("tmp." ++ Text.Decimal.ofNat ((requests.take j).count (.draw i))))) ∧
      (∀ i j k : Nat, requests[j]? = some (.draw i) → requests[k]? = some (.draw i) → j ≠ k →
        replies[j]? ≠ replies[k]?) ∧
      ∀ text, .name text ∈ replies → ∀ lines tokens, Token.scan lines = .ok tokens →
        ∀ t ∈ tokens, t.kind = .identifier → t.text ≠ some text := by
  have hadmissible : ∀ (j : Nat) (request : Request), requests[j]? = some request →
      request.Admissible ([] ++ requests.take j) := by
    intro j request hj
    cases request with
    | create => trivial
    | draw i => exact hcreated j i hj
  obtain ⟨replies, hreplies, hlength, hanswers⟩ := Pool.records_nil.serveAll hadmissible
  -- Of two draws from one supply the later one has a larger number.
  have hlater : ∀ i j k : Nat, requests[j]? = some (.draw i) → requests[k]? = some (.draw i) →
      j < k → replies[j]? ≠ replies[k]? := by
    intro i j k hj hk hjk he
    have hlt := count_take_lt hj hjk
    rw [hanswers j _ hj, hanswers k _ hk, Option.some.injEq] at he
    have hnumber := tempName_injective (Reply.name.inj he)
    exact absurd hnumber (Nat.ne_of_lt hlt)
  refine ⟨replies, hreplies, hlength, fun j hj => hanswers j _ hj, fun j i hj => hanswers j _ hj,
    fun i j k hj hk hne => ?_, fun text htext lines tokens hscan t ht hkind => ?_⟩
  · rcases Nat.lt_or_gt_of_ne hne with hjk | hkj
    · exact hlater i j k hj hk hjk
    · exact (hlater i k j hk hj hkj).symm
  · obtain ⟨j, hj⟩ := List.mem_iff_getElem?.mp htext
    obtain ⟨hlt, -⟩ := List.getElem?_eq_some_iff.mp hj
    rw [hlength] at hlt
    have hrequest := List.getElem?_eq_getElem hlt
    rw [hanswers j _ hrequest, Option.some.injEq] at hj
    cases hdraw : requests[j] with
    | create =>
      rw [hdraw] at hj
      cases hj
    | draw i =>
      rw [hdraw] at hj
      cases hj
      exact text_ne_tempName hscan ht hkind _

/-- Two supplies in turn, one of them created late. -/
def mixed : List Request :=
  [.create, .draw 0, .draw 0, .create, .draw 1, .draw 0, .draw 1]

theorem serveAll_numbers_draws_mixed :
    (∀ j i, mixed[j]? = some (.draw i) → i < (mixed.take j).count .create) ∧
      ∃ replies, Pool.serveAll [] mixed = some replies ∧
        replies[4]? = some (.name "tmp.0") ∧ replies[5]? = some (.name "tmp.2") ∧
        replies[6]? = some (.name "tmp.1") ∧ replies[1]? ≠ replies[5]? := by
  have hcreated : ∀ j i, mixed[j]? = some (.draw i) → i < (mixed.take j).count .create := by
    intro j i hj
    rcases j with _ | _ | _ | _ | _ | _ | _ | j <;> cases hj <;> decide
  obtain ⟨replies, hreplies, -, -, hnames, hdistinct, -⟩ := serveAll_numbers_draws mixed hcreated
  exact ⟨hcreated, replies, hreplies, hnames 4 1 rfl, hnames 5 0 rfl, hnames 6 1 rfl,
    hdistinct 0 1 5 rfl rfl (by decide)⟩

end NameSupply

end UnaryC.Tac

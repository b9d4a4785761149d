import Reassembly.Http.Remote
import Reassembly.Proofs.Http.Segment

/-!
# Where manifests are asked for

The manifest of a file is asked for at the endpoint, with the name of the file as one more segment of its path. Only
the path of the endpoint is changed. The segment stands for the name as long as the name is no dot segment and all of
it counts in URLs; then names that differ are asked for in different places. The names that are not carried so are
asked for in the place of others, and when two points are what counts of one, outside the path of the endpoint.
-/

namespace Reassembly

namespace Remote

variable {endpoint : String} {credentials : Credentials} {config : ClientConfig} {remote : Remote}

/-- The endpoint of services that are reached is a URL with a path of segments. -/
theorem exists_base_of_connect (h : connect endpoint credentials config = .ok remote) :
    remote.endpoint = endpoint ∧
      ∃ base path, Url.parse endpoint = .ok base ∧ base.path = .segments path := by
  rw [connect] at h
  split at h
  · simp at h
  · next base hbase =>
    split at h
    · simp at h
    · next hkeeps =>
      split at h
      · simp at h
      · split at h
        · simp at h
        · obtain rfl := Except.ok.inj h
          refine ⟨rfl, base, ?_⟩
          cases hpath : base.path with
          | segments path => exact ⟨path, hbase, rfl⟩
          | plain text => simp [Url.isBase, hpath] at hkeeps

/-- The URL of a manifest is the endpoint with one more segment. -/
theorem manifestUrl_of_parse {base : Url} {path : List String} (hbase : Url.parse remote.endpoint = .ok base)
    (hpath : base.path = .segments path) (fileId : String) : remote.manifestUrl fileId =
      .ok { base with path := .segments (Url.addSegment (Url.withoutEmptyLast path) fileId) } := by
  rw [manifestUrl, hbase]
  simp only [Url.child?, hpath]

end Remote

/-- A manifest is asked for at the endpoint with one more segment, which stands for the name of the file exactly when
the name is carried unchanged.

Whatever endpoint is accepted, and whatever the name of a file is: the URL differs from the endpoint in nothing but
its path. That is the path of the endpoint without one empty last segment and behind it one further segment that
stands for the name, exactly when the name is no dot segment and all of it counts in URLs; of an endpoint whose path is
two slashes, both empty segments are dropped. Names that are carried so are asked for in different places when they
differ, and every name is asked for in the place of another that is not. No name leads out of the path of the
endpoint but those of which two points count: they take the last segment of it away. -/
theorem manifestUrl_addresses_iff {endpoint : String} {credentials : Credentials} {config : ClientConfig}
    {remote : Remote} (hconnect : Remote.connect endpoint credentials config = .ok remote) :
    ∃ base path, Url.parse endpoint = .ok base ∧ base.path = .segments path ∧
      (∀ fileId, ∃ extended, remote.manifestUrl fileId = .ok { base with path := .segments extended } ∧
        (Url.Addresses path fileId extended ↔ Url.IsSegment fileId ∧ path ≠ ["", ""]) ∧
        (Url.IsSegment fileId → ∃ segment, extended = Url.below path ++ [segment] ∧
          Percent.bytesOf segment.toList = Bytes.ofText fileId) ∧
        (¬ Url.Climbs fileId → Url.below path <+: extended) ∧
        (Url.Climbs fileId → extended = (Url.below path).dropLast ++ [""])) ∧
      (∀ first second url other, Url.IsSegment first → Url.IsSegment second → remote.manifestUrl first = .ok url →
        remote.manifestUrl second = .ok other → url.target = other.target → first = second) ∧
      ∀ fileId, ∃ other ≠ fileId, remote.manifestUrl other = remote.manifestUrl fileId := by
  obtain ⟨rfl, base, path, hbase, hpath⟩ := Remote.exists_base_of_connect hconnect
  have hurl := Remote.manifestUrl_of_parse hbase hpath
  refine ⟨base, path, hbase, hpath, fun fileId => ⟨_, hurl fileId, Url.addresses_iff, fun hsegment => ?_,
    fun hstays => Url.below_isPrefix hstays path, fun hclimbs => Url.addSegment_of_climbs hclimbs path⟩, ?_, ?_⟩
  · exact ⟨Url.encoded fileId, Url.addSegment_of_isSegment hsegment path, Url.bytesOf_encoded fileId⟩
  · intro first second url other hfirst hsecond hurlFirst hurlSecond htarget
    obtain rfl := Except.ok.inj ((hurl first).symm.trans hurlFirst)
    obtain rfl := Except.ok.inj ((hurl second).symm.trans hurlSecond)
    rw [Url.addSegment_of_isSegment hfirst, Url.addSegment_of_isSegment hsecond] at htarget
    have hbytes := congrArg (Percent.bytesOf ·.toList) (Url.eq_of_target htarget)
    simp only [Url.bytesOf_encoded] at hbytes
    exact Url.ofText_inj hbytes
  · intro fileId
    obtain ⟨other, hne, hsame⟩ := Url.exists_ne_addSegment fileId
    exact ⟨other, hne, by rw [hurl, hurl, hsame]⟩

/-- Services behind a path. -/
def Remote.pathSample : Remote := ⟨"http://127.0.0.1:8080/api/v1/", "Bearer key", "directio/0.1.0", ⟨3, .ofSeconds 1⟩⟩

/-- The services of the sample are reached at their endpoint. -/
theorem Remote.connect_pathSample :
    Remote.connect "http://127.0.0.1:8080/api/v1/" (.bearer "key") {} = .ok .pathSample := by
  decide +kernel

/-- A name with a slash is addressed behind a path. -/
theorem manifestUrl_addresses_iff_sample :
    Remote.connect "http://127.0.0.1:8080/api/v1/" (.bearer "key") {} = .ok .pathSample ∧
      ∃ url extended, Remote.pathSample.manifestUrl "a/b" = .ok url ∧ url.path = .segments extended ∧
        Url.Addresses ["api", "v1", ""] "a/b" extended := by
  obtain ⟨base, path, hbase, hpath, hnames, -⟩ := manifestUrl_addresses_iff Remote.connect_pathSample
  obtain ⟨extended, hurl, haddresses, -⟩ := hnames "a/b"
  have hsegments : (Url.parse "http://127.0.0.1:8080/api/v1/").map (·.path) = .ok (.segments ["api", "v1", ""]) := by
    decide +kernel
  rw [hbase] at hsegments
  obtain rfl := UrlPath.segments.inj (hpath.symm.trans (Except.ok.inj hsegments))
  exact ⟨Remote.connect_pathSample, _, extended, hurl, rfl, haddresses.mpr ⟨by decide, by decide⟩⟩

/-- A name with a tabulator is asked for in the place of the one without it, both dot segments at the endpoint itself,
and a name of which two points count outside the path of the endpoint. -/
theorem manifestUrl_confuses_sample :
    Remote.pathSample.manifestUrl "a\tb" = Remote.pathSample.manifestUrl "ab" ∧
      Remote.pathSample.manifestUrl "." = Remote.pathSample.manifestUrl ".." ∧
      (Remote.pathSample.manifestUrl "a\tb").map Url.target = .ok "/api/v1/ab" ∧
      (Remote.pathSample.manifestUrl ".").map Url.target = .ok "/api/v1" ∧
      (Remote.pathSample.manifestUrl ".\t.").map Url.target = .ok "/api/" := by
  decide +kernel

end Reassembly

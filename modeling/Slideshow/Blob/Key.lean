import Slideshow.Job.Record

/-! # Names of rendered videos

Every video of a job is stored under a key made of the name of the job and the name of the part. -/

namespace Slideshow.Blob

/-- The name of the finished video among the parts of a job. -/
def finalSegment : String := "video"

/-- The key under which a part of a job is stored. -/
def videoKey (jobId : JobId) (segment : String) : String :=
  "video/" ++ jobId ++ "/" ++ segment ++ ".mp4"

end Slideshow.Blob

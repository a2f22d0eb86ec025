import NsxManager.Core.Text

/-! Why a transfer or an extraction stopped. -/

namespace NsxManager.Infra

open NsxManager.Core

inductive HttpError where
  | none
  | noNetwork
  | dnsFailure
  | connectFailed
  | timeout
  | tlsVerifyFailed
  | tlsClockSkew
  | insecureUrl
  | httpStatus
  | rateLimited
  | tooLarge
  | sizeMismatch
  | digestMismatch
  | writeFailed
  | aborted
  | internal
  deriving DecidableEq

def HttpError.describe : HttpError → Bytes
  | .none => ascii "no error"
  | .noNetwork => ascii "no network connection"
  | .dnsFailure => ascii "could not resolve the host"
  | .connectFailed => ascii "could not connect to the host"
  | .timeout => ascii "the connection timed out"
  | .tlsVerifyFailed => ascii "the server certificate could not be verified"
  | .tlsClockSkew => ascii "the server certificate is not valid yet or has expired"
  | .insecureUrl => ascii "refused a non-https URL"
  | .httpStatus => ascii "the server returned an error status"
  | .rateLimited => ascii "rate limited by the server"
  | .tooLarge => ascii "the response was larger than allowed"
  | .sizeMismatch => ascii "the download was the wrong size"
  | .digestMismatch => ascii "the download did not match its expected digest"
  | .writeFailed => ascii "could not write to the SD card"
  | .aborted => ascii "cancelled"
  | .internal => ascii "internal error"

def HttpError.advise : HttpError → Bytes
  | .noNetwork => ascii "Connect to Wi-Fi and try again."
  | .dnsFailure =>
    ascii "Check your network settings. A DNS blocker may be blocking more than intended."
  | .tlsClockSkew => ascii "Set your console's date and time, then try again."
  | .tlsVerifyFailed => ascii "The connection could not be trusted, so it was refused."
  | .rateLimited => ascii "Too many requests. Try again later."
  | .tooLarge | .writeFailed => ascii "Free some space on your SD card and try again."
  | .sizeMismatch | .digestMismatch =>
    ascii "The download was corrupted or altered, so it was discarded."
  | .connectFailed | .timeout | .httpStatus => ascii "Check your connection and try again."
  | .none | .insecureUrl | .aborted | .internal => []

inductive ArchiveError where
  | cannotOpen
  | empty
  | unsafeEntry
  | tooLarge
  | directoryFailed
  | writeFailed
  | readFailed
  | aborted
  deriving DecidableEq

def ArchiveError.describe : ArchiveError → Bytes
  | .cannotOpen => ascii "the archive could not be opened"
  | .empty => ascii "the archive is empty"
  | .unsafeEntry =>
    ascii "the archive contains an entry that would write outside the destination"
  | .tooLarge => ascii "the archive expands to more than the allowed size"
  | .directoryFailed => ascii "a destination directory could not be created"
  | .writeFailed => ascii "a file could not be written"
  | .readFailed => ascii "an entry could not be decompressed"
  | .aborted => ascii "cancelled"

end NsxManager.Infra

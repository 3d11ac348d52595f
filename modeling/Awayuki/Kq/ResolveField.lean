import Awayuki.Kq.Syntax

/-!
# KQ: names of the fields

The table of `resolve_field`: for each field the paths that name it, in lower case.  The first
path of a field is the one a query is printed with.
-/

namespace Awayuki.Kq

/-- The paths that name a field. -/
def Field.paths : Field → List (List String)
  | .text => [["text"], ["body"], ["content"]]
  | .rawContent => [["raw_content"], ["raw"]]
  | .id => [["id"]]
  | .uri => [["uri"]]
  | .url => [["url"]]
  | .application => [["via"], ["source"], ["client"], ["from"], ["application"],
      ["application_name"], ["application", "name"]]
  | .directMessage => [["direct_message"], ["directmessage"], ["isdirectmessage"],
      ["is_direct_message"], ["dm"], ["isdm"], ["is_dm"], ["message"], ["ismessage"],
      ["is_message"], ["is_direct"], ["direct"]]
  | .boost => [["retweet"], ["rt"], ["isretweet"], ["is_retweet"], ["reblog"], ["isreblog"],
      ["is_reblog"], ["boost"], ["isboost"], ["is_boost"], ["renote"], ["isrenote"], ["is_renote"]]
  | .inReplyTo => [["in_reply_to"], ["in_reply_to_id"], ["inreplyto"], ["replyto"], ["reply_to"],
      ["reply", "id"]]
  | .replyAccountId => [["in_reply_to_account"], ["in_reply_to_account_id"],
      ["reply", "account_id"]]
  | .isReply => [["is_reply"], ["reply"]]
  | .mentions => [["to"], ["mention"], ["mentions"]]
  | .favouritesCount => [["favs"], ["favourite"], ["favourites"], ["favorite"], ["favorites"],
      ["favourer"], ["favourers"], ["favorer"], ["favorers"], ["like"], ["likes"], ["fav_count"],
      ["favourites_count"], ["favorites_count"], ["likes_count"], ["reactions_count"]]
  | .reblogsCount => [["retweets"], ["rts"], ["reblogs"], ["boosts"], ["renotes"], ["reposts"],
      ["retweeters"], ["reblogs_count"], ["boosts_count"], ["renotes_count"], ["reposts_count"]]
  | .repliesCount => [["replies"], ["replies_count"]]
  | .visibility => [["visibility"]]
  | .isPublic => [["public"], ["is_public"]]
  | .isUnlisted => [["unlisted"], ["is_unlisted"]]
  | .isPrivate => [["private"], ["is_private"], ["followers_only"]]
  | .language => [["lang"], ["language"]]
  | .spoilerText => [["cw"], ["spoiler"], ["spoiler_text"]]
  | .hasSpoiler => [["has_cw"], ["has_spoiler"]]
  | .sensitive => [["sensitive"]]
  | .hasMedia => [["media"], ["has_media"]]
  | .mediaCount => [["media_count"], ["media", "count"]]
  | .mediaTypes => [["media_types"], ["media", "types"]]
  | .mediaDescriptions => [["media_descriptions"], ["media", "descriptions"]]
  | .hasImage => [["has_image"], ["media", "has_image"]]
  | .hasVideo => [["has_video"], ["media", "has_video"]]
  | .hasAudio => [["has_audio"], ["media", "has_audio"]]
  | .hasPoll => [["poll"], ["has_poll"]]
  | .pollId => [["poll", "id"]]
  | .pollExpired => [["poll", "expired"]]
  | .pollMultiple => [["poll", "multiple"]]
  | .pollVotesCount => [["poll", "votes_count"]]
  | .pollVotersCount => [["poll", "voters_count"]]
  | .pollOptionsCount => [["poll", "options_count"]]
  | .pollOptions => [["poll", "options"]]
  | .pollExpiresAt => [["poll", "expires_at"]]
  | .hasCard => [["card"], ["has_card"]]
  | .hasQuote => [["quote"], ["has_quote"], ["isquote"], ["is_quote"]]
  | .quoteId => [["quote", "id"]]
  | .quoteUrl => [["quote", "url"]]
  | .quoteText => [["quote", "text"]]
  | .quoteAuthorAcct => [["quote", "user"], ["quote", "author"], ["quote", "user", "acct"],
      ["quote", "author", "acct"]]
  | .edited => [["edited"], ["is_edited"]]
  | .editedAt => [["edited_at"]]
  | .domain => [["domain"], ["server_domain"], ["host"]]
  | .hashtags => [["hashtag"], ["hashtags"], ["tag"], ["tags"]]
  | .ourAccounts => [["we"], ["our"], ["us"]]
  | .authorAcct => [["user"], ["author"], ["user", "acct"], ["author", "acct"],
      ["user", "screen_name"], ["user", "screenname"]]
  | .authorUsername => [["author", "username"]]
  | .authorDisplayName => [["user", "username"], ["user", "name"], ["user", "display_name"],
      ["author", "name"], ["author", "display_name"]]
  | .authorId => [["user", "id"], ["author", "id"]]
  | .authorNote => [["user", "description"], ["user", "desc"], ["user", "bio"], ["user", "note"],
      ["author", "description"], ["author", "desc"], ["author", "bio"], ["author", "note"]]
  | .authorLocked => [["user", "protected"], ["user", "isprotected"], ["user", "is_protected"],
      ["user", "locked"], ["author", "protected"], ["author", "is_protected"],
      ["author", "locked"]]
  | .authorBot => [["user", "bot"], ["user", "is_bot"], ["author", "bot"], ["author", "is_bot"]]
  | .authorFollowers => [["user", "follower"], ["user", "followers"], ["user", "followerscount"],
      ["user", "follower_count"], ["user", "followers_count"], ["author", "followers"],
      ["author", "followers_count"]]
  | .authorFollowing => [["user", "follow"], ["user", "following"], ["user", "followings"],
      ["user", "followingcount"], ["user", "followingscount"], ["user", "following_count"],
      ["user", "followings_count"], ["user", "friend"], ["user", "friends"],
      ["user", "friendscount"], ["user", "friend_count"], ["user", "friends_count"],
      ["author", "following"], ["author", "following_count"]]
  | .authorStatuses => [["user", "status"], ["user", "statuses"], ["user", "statuscount"],
      ["user", "statusescount"], ["user", "status_count"], ["user", "statuses_count"],
      ["author", "statuses"], ["author", "statuses_count"]]
  | .authorDomain => [["user", "domain"], ["user", "server_domain"], ["author", "domain"],
      ["author", "server_domain"]]
  | .boosterAcct => [["retweeter"], ["reblogger"], ["booster"], ["renoter"], ["retweeter", "acct"],
      ["reblogger", "acct"], ["booster", "acct"], ["retweeter", "screen_name"],
      ["retweeter", "screenname"], ["reblogger", "screen_name"], ["reblogger", "screenname"],
      ["booster", "screen_name"], ["booster", "screenname"]]
  | .boosterUsername => [["booster", "username"], ["reblogger", "username"]]
  | .boosterDisplayName => [["retweeter", "username"], ["retweeter", "name"],
      ["retweeter", "display_name"], ["booster", "name"], ["booster", "display_name"],
      ["reblogger", "name"], ["reblogger", "display_name"]]
  | .boosterId => [["retweeter", "id"], ["reblogger", "id"], ["booster", "id"]]
  | .boosterNote => [["retweeter", "description"], ["retweeter", "desc"], ["retweeter", "bio"],
      ["retweeter", "note"], ["reblogger", "description"], ["reblogger", "desc"],
      ["reblogger", "bio"], ["reblogger", "note"], ["booster", "description"], ["booster", "desc"],
      ["booster", "bio"], ["booster", "note"]]
  | .boosterLocked => [["retweeter", "protected"], ["retweeter", "isprotected"],
      ["retweeter", "is_protected"], ["retweeter", "locked"], ["reblogger", "protected"],
      ["reblogger", "is_protected"], ["reblogger", "locked"], ["booster", "protected"],
      ["booster", "is_protected"], ["booster", "locked"]]
  | .boosterBot => [["retweeter", "bot"], ["retweeter", "is_bot"], ["reblogger", "bot"],
      ["reblogger", "is_bot"], ["booster", "bot"], ["booster", "is_bot"]]
  | .boosterFollowers => [["retweeter", "follower"], ["retweeter", "followers"],
      ["retweeter", "followerscount"], ["retweeter", "follower_count"],
      ["retweeter", "followers_count"], ["reblogger", "follower"], ["reblogger", "followers"],
      ["reblogger", "followerscount"], ["reblogger", "followers_count"], ["booster", "follower"],
      ["booster", "followers"], ["booster", "followerscount"], ["booster", "followers_count"]]
  | .boosterFollowing => [["retweeter", "follow"], ["retweeter", "following"],
      ["retweeter", "followings"], ["retweeter", "followingcount"],
      ["retweeter", "followingscount"], ["retweeter", "following_count"],
      ["retweeter", "followings_count"], ["retweeter", "friend"], ["retweeter", "friends"],
      ["retweeter", "friendscount"], ["retweeter", "friend_count"], ["retweeter", "friends_count"],
      ["reblogger", "follow"], ["reblogger", "following"], ["reblogger", "followings"],
      ["reblogger", "followingcount"], ["reblogger", "following_count"],
      ["reblogger", "followings_count"], ["reblogger", "friend"], ["reblogger", "friends"],
      ["booster", "follow"], ["booster", "following"], ["booster", "followings"],
      ["booster", "followingcount"], ["booster", "following_count"],
      ["booster", "followings_count"], ["booster", "friend"], ["booster", "friends"]]
  | .boosterStatuses => [["retweeter", "status"], ["retweeter", "statuses"],
      ["retweeter", "statuscount"], ["retweeter", "statusescount"], ["retweeter", "status_count"],
      ["retweeter", "statuses_count"], ["reblogger", "statuses"], ["reblogger", "statuses_count"],
      ["booster", "statuses"], ["booster", "statuses_count"]]
  | .boosterDomain => [["retweeter", "domain"], ["retweeter", "server_domain"],
      ["reblogger", "domain"], ["reblogger", "server_domain"], ["booster", "domain"],
      ["booster", "server_domain"]]
  | .viewerFavourited => [["viewer", "favourited"], ["viewer", "favorited"]]
  | .viewerReblogged => [["viewer", "reblogged"], ["viewer", "boosted"], ["viewer", "renoted"]]
  | .viewerMuted => [["viewer", "muted"]]
  | .viewerBookmarked => [["viewer", "bookmarked"]]
  | .viewerPinned => [["viewer", "pinned"]]

/-- The fields in the order of the table. -/
def Field.all : List Field :=
  [.text, .rawContent, .id, .uri, .url, .application, .directMessage, .boost, .inReplyTo,
    .replyAccountId, .isReply, .mentions, .favouritesCount, .reblogsCount, .repliesCount,
    .visibility, .isPublic, .isUnlisted, .isPrivate, .language, .spoilerText, .hasSpoiler,
    .sensitive, .hasMedia, .mediaCount, .mediaTypes, .mediaDescriptions, .hasImage, .hasVideo,
    .hasAudio, .hasPoll, .pollId, .pollExpired, .pollMultiple, .pollVotesCount, .pollVotersCount,
    .pollOptionsCount, .pollOptions, .pollExpiresAt, .hasCard, .hasQuote, .quoteId, .quoteUrl,
    .quoteText, .quoteAuthorAcct, .edited, .editedAt, .domain, .hashtags, .ourAccounts,
    .authorAcct, .authorUsername, .authorDisplayName, .authorId, .authorNote, .authorLocked,
    .authorBot, .authorFollowers, .authorFollowing, .authorStatuses, .authorDomain, .boosterAcct,
    .boosterUsername, .boosterDisplayName, .boosterId, .boosterNote, .boosterLocked, .boosterBot,
    .boosterFollowers, .boosterFollowing, .boosterStatuses, .boosterDomain, .viewerFavourited,
    .viewerReblogged, .viewerMuted, .viewerBookmarked, .viewerPinned]

theorem Field.mem_all (f : Field) : f ∈ Field.all := by
  cases f <;> exact List.elem_iff.1 rfl

/-- `resolve_field`: parts are compared without regard to ASCII case. -/
def resolveField (parts : List Str) : Option Field :=
  let lower := parts.map Str.toAsciiLowercase
  Field.all.find? fun f => (f.paths.map (·.map String.toList)).contains lower

/-- The path that a field is printed with. -/
def Field.path (f : Field) : List Str := (f.paths.head?.getD []).map String.toList

theorem resolveField_path (f : Field) : resolveField f.path = some f := by
  have h : ∀ f ∈ Field.all, resolveField f.path = some f := by decide +kernel
  exact h f f.mem_all

end Awayuki.Kq
